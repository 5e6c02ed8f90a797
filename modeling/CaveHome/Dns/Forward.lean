import CaveHome.Dns.Message
import Mathlib.Data.Int.ModEq
import Mathlib.Data.List.Nodup
import Mathlib.Data.List.Perm.Subperm

/-!
# Forwarding to upstreams

A pool of upstreams counts the failures of each since its last success and marks it down when there
are too many.  A query goes to the upstreams that are not down, in the order of a policy, until one
answers.  Nothing is sent to an upstream that is down, so no success of it can be recorded.
-/

namespace CaveHome.Dns.Forward

/-- The default of `maxFails`. -/
def defaultMaxFails : UInt32 := 2

inductive Policy
  | roundRobin
  | random
  | sequential
deriving DecidableEq

structure Health where
  addr : String
  fails : UInt32
  down : Bool

structure Pool where
  upstreams : List Health
  policy : Policy
  maxFails : UInt32
  cursor : ℕ
  rng : UInt64

/-- An upstream after a query to it. -/
def Health.after (maxFails : UInt32) (ok : Bool) (u : Health) : Health :=
  if ok then { u with fails := 0, down := false }
  else { u with fails := u.fails + 1, down := u.down || decide (maxFails ≤ u.fails + 1) }

/-- One step of the generator. -/
def nextRng (rng : UInt64) : UInt64 := rng * 0x2545F4914F6CDD1D + 1

def swap (l : List ℕ) (i j : ℕ) : List ℕ :=
  match l[i]?, l[j]? with
  | some a, some b => (l.set i b).set j a
  | _, _ => l

/-- Shuffle the first entries of a list, from the last of them down. -/
def shuffle : ℕ → UInt64 → List ℕ → List ℕ × UInt64
  | 0, rng, l => (l, rng)
  | i + 1, rng, l =>
    shuffle i (nextRng rng) (swap l (i + 1) ((nextRng rng >>> 33).toNat % (i + 2)))

namespace Pool

def new (addrs : List String) (policy : Policy) (maxFails : UInt32) : Pool where
  upstreams := addrs.map fun addr => ⟨addr, 0, false⟩
  policy := policy
  maxFails := max maxFails 1
  cursor := 0
  rng := 0x9E3779B97F4A7C15

variable (p : Pool)

def isDown (idx : ℕ) : Bool := p.upstreams[idx]?.any Health.down

def addr (idx : ℕ) : String := p.upstreams[idx]?.elim "" Health.addr

def record (idx : ℕ) (ok : Bool) : Pool :=
  { p with upstreams := p.upstreams.modify idx (Health.after p.maxFails ok) }

/-- The upstreams that are not down, in order. -/
def healthy : List ℕ := (List.range p.upstreams.length).filter fun i => !p.isDown i

/-- The places of the upstreams from the cursor on. -/
def rotated : List ℕ :=
  (List.range p.upstreams.length).map fun i => (p.cursor + i) % p.upstreams.length

/-- The next upstream that is not down. -/
def select : Option ℕ × Pool :=
  if p.healthy = [] then (none, p)
  else
    match p.policy with
    | .sequential => (p.healthy.head?, p)
    | .roundRobin =>
      match p.rotated.find? fun i => !p.isDown i with
      | some idx => (some idx, { p with cursor := (idx + 1) % p.upstreams.length })
      | none => (none, p)
    | .random =>
      (p.healthy[(nextRng p.rng >>> 33).toNat % p.healthy.length]?, { p with rng := nextRng p.rng })

/-- The order in which the upstreams are tried for one query. -/
def tryOrder : List ℕ × Pool :=
  match p.policy with
  | .sequential => (p.healthy, p)
  | .roundRobin =>
    (p.rotated.filter fun i => !p.isDown i,
      { p with cursor := (p.cursor + 1) % max p.upstreams.length 1 })
  | .random =>
    ((shuffle (p.healthy.length - 1) p.rng p.healthy).1,
      { p with rng := (shuffle (p.healthy.length - 1) p.rng p.healthy).2 })

end Pool

inductive ServerError
  | noNextPlugin
  | backend (tag : String)
deriving DecidableEq

/-- What comes back for a query to an address, or nothing.  The number counts the exchanges for the
query, since the network can change in between. -/
abbrev Transport := ℕ → String → Message → Option Message

/-- What a query leads to: the outcome, the pool after it, and what was recorded on the way. -/
structure Served where
  outcome : Except ServerError Message
  pool : Pool
  records : List (ℕ × Bool)

/-- Try one upstream after another until one answers. -/
def tryEach (transport : Transport) (query : Message) : List ℕ → ℕ → Pool → Served
  | [], _, p => ⟨.error (.backend "all upstreams failed"), p, []⟩
  | idx :: order, n, p =>
    match transport n (p.addr idx) query with
    | some reply =>
      { outcome := .ok
          { reply with
            header := { reply.header with id := query.header.id }
            questions := query.questions }
        pool := p.record idx true
        records := [(idx, true)] }
    | none =>
      let served := tryEach transport query order (n + 1) (p.record idx false)
      { served with records := (idx, false) :: served.records }

def Pool.serveDns (p : Pool) (transport : Transport) (query : Message) : Served :=
  tryEach transport query p.tryOrder.1 0 p.tryOrder.2

/-- Queries, one after the other, and all that they record. -/
inductive Run (addrs : List String) (policy : Policy) (maxFails : UInt32) :
    List (ℕ × Bool) → Pool → Prop
  | new : Run addrs policy maxFails [] (Pool.new addrs policy maxFails)
  | serve {log : List (ℕ × Bool)} {p : Pool} : Run addrs policy maxFails log p →
    ∀ (transport : Transport) (query : Message),
      Run addrs policy maxFails (log ++ (p.serveDns transport query).records)
        (p.serveDns transport query).pool

/-! ## The order -/

theorem swap_perm (l : List ℕ) (i j : ℕ) : (swap l i j).Perm l := by
  unfold swap
  split
  next a b ha hb =>
    obtain ⟨hi, rfl⟩ := List.getElem?_eq_some_iff.mp ha
    obtain ⟨hj, rfl⟩ := List.getElem?_eq_some_iff.mp hb
    exact List.set_set_perm hi hj
  next => exact List.Perm.refl l

theorem shuffle_perm (i : ℕ) (rng : UInt64) (l : List ℕ) : (shuffle i rng l).1.Perm l := by
  induction i generalizing rng l with
  | zero => exact List.Perm.refl l
  | succ i ih => exact (ih _ _).trans (swap_perm l _ _)

namespace Pool

variable {p : Pool}

theorem mem_healthy {idx : ℕ} :
    idx ∈ p.healthy ↔ idx < p.upstreams.length ∧ p.isDown idx = false := by
  simp [healthy]

theorem nodup_healthy : p.healthy.Nodup := List.nodup_range.filter _

theorem rotated_perm : p.rotated.Perm (List.range p.upstreams.length) := by
  have hmem : ∀ i ∈ p.rotated, i < p.upstreams.length := by
    intro i hi
    obtain ⟨k, hk, rfl⟩ := List.mem_map.mp hi
    exact Nat.mod_lt _ (Nat.lt_of_le_of_lt (Nat.zero_le k) (List.mem_range.mp hk))
  have hnodup : p.rotated.Nodup := by
    refine List.Nodup.map_on ?_ List.nodup_range
    intro i hi j hj heq
    have hmod : Nat.ModEq p.upstreams.length i j := Nat.ModEq.add_left_cancel' p.cursor heq
    exact hmod.eq_of_lt_of_lt (List.mem_range.mp hi) (List.mem_range.mp hj)
  have hsub := List.subperm_of_subset hnodup fun i hi => List.mem_range.mpr (hmem i hi)
  exact hsub.perm_of_length_le (by simp [rotated])

theorem tryOrder_perm : p.tryOrder.1.Perm p.healthy := by
  unfold tryOrder
  split
  next => exact List.Perm.refl _
  next => exact rotated_perm.filter _
  next => exact shuffle_perm _ _ _

theorem tryOrder_upstreams : p.tryOrder.2.upstreams = p.upstreams := by
  unfold tryOrder
  split <;> rfl

theorem tryOrder_maxFails : p.tryOrder.2.maxFails = p.maxFails := by
  unfold tryOrder
  split <;> rfl

end Pool

/-! ## Health -/

/-- The failures of an upstream since its last success. -/
def failures (idx : ℕ) (log : List (ℕ × Bool)) : ℕ :=
  log.foldl (fun n e => if e.1 = idx then if e.2 then 0 else n + 1 else n) 0

theorem failures_append (idx : ℕ) (log : List (ℕ × Bool)) (e : ℕ × Bool) :
    failures idx (log ++ [e]) =
      if e.1 = idx then if e.2 then 0 else failures idx log + 1 else failures idx log := by
  rw [failures, List.foldl_append]
  rfl

/-- The counters are those of the log, and an upstream is down when its counter is at the bound. -/
structure Tracks (log : List (ℕ × Bool)) (p : Pool) : Prop where
  fails {idx : ℕ} {u : Health} : p.upstreams[idx]? = some u → u.fails.toNat = failures idx log
  down {idx : ℕ} {u : Health} : p.upstreams[idx]? = some u → (u.down = true ↔ p.maxFails ≤ u.fails)
  pos : 0 < p.maxFails

namespace Pool

variable {p : Pool} {log : List (ℕ × Bool)}

theorem isDown_eq {idx : ℕ} {u : Health} (h : p.upstreams[idx]? = some u) :
    p.isDown idx = u.down := by
  rw [isDown, h]
  rfl

theorem record_getElem? (idx : ℕ) (ok : Bool) (i : ℕ) :
    (p.record idx ok).upstreams[i]? =
      if idx = i then p.upstreams[i]?.map (Health.after p.maxFails ok) else p.upstreams[i]? := by
  rw [record, List.getElem?_modify]
  split <;> simp

theorem isDown_record {idx i : ℕ} (h : idx ≠ i) (ok : Bool) :
    (p.record idx ok).isDown i = p.isDown i := by
  rw [isDown, record_getElem?, if_neg h, isDown]

theorem toNat_fails_add_one {u : Health} {idx : ℕ} (h : Tracks log p)
    (hu : p.upstreams[idx]? = some u) (hup : p.isDown idx = false) :
    (u.fails + 1).toNat = u.fails.toNat + 1 := by
  rw [isDown_eq hu] at hup
  have hlt : u.fails < p.maxFails := by
    refine UInt32.not_le.mp fun hle => ?_
    rw [(h.down hu).mpr hle] at hup
    cases hup
  rw [UInt32.toNat_add, UInt32.toNat_one, Nat.mod_eq_of_lt]
  have hmax := p.maxFails.toNat_lt
  rw [UInt32.lt_iff_toNat_lt] at hlt
  omega

end Pool

section Tracks

variable {p : Pool} {log : List (ℕ × Bool)}

theorem Tracks.record (h : Tracks log p) {idx : ℕ} (hup : p.isDown idx = false) (ok : Bool) :
    Tracks (log ++ [(idx, ok)]) (p.record idx ok) := by
  have hcases {i : ℕ} {u : Health} (hu : (p.record idx ok).upstreams[i]? = some u) :
      (idx ≠ i ∧ p.upstreams[i]? = some u) ∨
        (idx = i ∧ ∃ v, p.upstreams[i]? = some v ∧ u = v.after p.maxFails ok) := by
    rw [Pool.record_getElem?] at hu
    split at hu
    next heq =>
      obtain ⟨v, hv, rfl⟩ := Option.map_eq_some_iff.mp hu
      exact Or.inr ⟨heq, v, hv, rfl⟩
    next hne => exact Or.inl ⟨hne, hu⟩
  refine ⟨fun {i u} hu => ?_, fun {i u} hu => ?_, h.pos⟩
  · rw [failures_append]
    obtain ⟨hne, hold⟩ | ⟨rfl, v, hv, rfl⟩ := hcases hu
    · rw [if_neg hne]
      exact h.fails hold
    · rw [if_pos rfl, ← h.fails hv]
      cases ok with
      | true => rfl
      | false => exact Pool.toNat_fails_add_one h hv hup
  · obtain ⟨hne, hold⟩ | ⟨rfl, v, hv, rfl⟩ := hcases hu
    · exact h.down hold
    · cases ok with
      | true =>
        refine iff_of_false Bool.false_ne_true ?_
        exact UInt32.not_le.mpr h.pos
      | false =>
        have hdown : v.down = false := (Pool.isDown_eq hv).symm.trans hup
        simp [Health.after, Pool.record, hdown]

theorem tracks_new (addrs : List String) (policy : Policy) (maxFails : UInt32) :
    Tracks [] (Pool.new addrs policy maxFails) := by
  have hpos : 0 < max maxFails 1 := by
    change 0 < if maxFails ≤ 1 then 1 else maxFails
    split
    next => decide
    next h => exact UInt32.lt_trans (by decide) (UInt32.not_le.mp h)
  have hzero {idx : ℕ} {u : Health}
      (hu : (Pool.new addrs policy maxFails).upstreams[idx]? = some u) : u.fails = 0 ∧ u.down = false := by
    rw [Pool.new, List.getElem?_map] at hu
    obtain ⟨addr, -, rfl⟩ := Option.map_eq_some_iff.mp hu
    exact ⟨rfl, rfl⟩
  refine ⟨fun hu => ?_, fun hu => ?_, hpos⟩
  · rw [(hzero hu).1]
    rfl
  · rw [(hzero hu).1, (hzero hu).2]
    exact iff_of_false Bool.false_ne_true (UInt32.not_le.mpr hpos)

theorem Tracks.tryOrder (h : Tracks log p) : Tracks log p.tryOrder.2 := by
  obtain ⟨hfails, hdown, hpos⟩ := h
  rw [← Pool.tryOrder_upstreams] at hfails
  rw [← Pool.tryOrder_upstreams, ← Pool.tryOrder_maxFails] at hdown
  rw [← Pool.tryOrder_maxFails] at hpos
  exact ⟨hfails, hdown, hpos⟩

end Tracks

/-! ## One query -/

/-- Each upstream at most once, and another one only after a failure. -/
structure TriesOnce (records : List (ℕ × Bool)) : Prop where
  nodup : (records.map Prod.fst).Nodup
  failed {front back : List (ℕ × Bool)} {e e' : ℕ × Bool} :
    records = front ++ e :: e' :: back → e.2 = false

section TryEach

variable {transport : Transport} {query : Message} {order : List ℕ} {n : ℕ} {p : Pool}
variable {log : List (ℕ × Bool)}

theorem records_prefix : (tryEach transport query order n p).records.map Prod.fst <+: order := by
  induction order generalizing n p with
  | nil => exact List.nil_prefix
  | cons idx order ih =>
    unfold tryEach
    split
    next => exact List.prefix_append [idx] order
    next => exact (List.prefix_cons_inj idx).mpr ih

theorem records_failed {front back : List (ℕ × Bool)} {e e' : ℕ × Bool}
    (h : (tryEach transport query order n p).records = front ++ e :: e' :: back) :
    e.2 = false := by
  induction order generalizing n p front with
  | nil => simp [tryEach] at h
  | cons idx order ih =>
    unfold tryEach at h
    split at h
    next => cases front <;> simp at h
    next =>
      cases front with
      | nil =>
        rw [List.nil_append, List.cons.injEq] at h
        rw [← h.1]
      | cons f front =>
        rw [List.cons_append, List.cons.injEq] at h
        exact ih h.2

theorem tracks_tryEach (h : Tracks log p) (hnodup : order.Nodup)
    (hup : ∀ idx ∈ order, p.isDown idx = false) :
    Tracks (log ++ (tryEach transport query order n p).records)
      (tryEach transport query order n p).pool := by
  induction order generalizing n p log with
  | nil => simpa [tryEach] using h
  | cons idx order ih =>
    have hidx := hup idx List.mem_cons_self
    unfold tryEach
    split
    next => exact h.record hidx true
    next =>
      obtain ⟨hnot, hrest⟩ := List.nodup_cons.mp hnodup
      have hlater : ∀ i ∈ order, (p.record idx false).isDown i = false := by
        intro i hi
        have hne : idx ≠ i := fun e => hnot (e ▸ hi)
        rw [Pool.isDown_record hne]
        exact hup i (List.mem_cons_of_mem _ hi)
      have hnext := ih (n := n + 1) (h.record hidx false) hrest hlater
      rw [List.append_assoc] at hnext
      exact hnext

variable (transport query order n p) in
theorem tryEach_shape : (tryEach transport query order n p).pool.upstreams.length =
      p.upstreams.length ∧ (tryEach transport query order n p).pool.maxFails = p.maxFails := by
  induction order generalizing n p with
  | nil => exact ⟨rfl, rfl⟩
  | cons idx order ih =>
    unfold tryEach
    split
    next => exact ⟨List.length_modify _ _ _, rfl⟩
    next =>
      obtain ⟨hlength, hmax⟩ := ih (n + 1) (p.record idx false)
      exact ⟨hlength.trans (List.length_modify _ _ _), hmax⟩

theorem outcome_of_answers (hanswers : ∀ n addr q, (transport n addr q).isSome) :
    (∃ reply, (tryEach transport query order n p).outcome = .ok reply) ↔ order ≠ [] := by
  cases order with
  | nil =>
    refine iff_of_false ?_ fun h => h rfl
    rintro ⟨reply, h⟩
    cases h
  | cons idx order =>
    refine iff_of_true ?_ (List.cons_ne_nil _ _)
    obtain ⟨reply, hreply⟩ := Option.isSome_iff_exists.mp (hanswers n (p.addr idx) query)
    unfold tryEach
    rw [hreply]
    exact ⟨_, rfl⟩

end TryEach

/-! ## Runs -/

section Run

variable {addrs : List String} {policy : Policy} {maxFails : UInt32} {log : List (ℕ × Bool)}
variable {p : Pool}

theorem Run.tracks (h : Run addrs policy maxFails log p) : Tracks log p := by
  induction h with
  | new => exact tracks_new addrs policy maxFails
  | @serve log p _ transport query ih =>
    refine tracks_tryEach ih.tryOrder (Pool.tryOrder_perm.nodup_iff.mpr Pool.nodup_healthy) ?_
    intro idx hidx
    rw [Pool.isDown, Pool.tryOrder_upstreams]
    exact (Pool.mem_healthy.mp (Pool.tryOrder_perm.mem_iff.mp hidx)).2

theorem Run.shape (h : Run addrs policy maxFails log p) :
    p.upstreams.length = addrs.length ∧ p.maxFails = max maxFails 1 := by
  induction h with
  | new => exact ⟨List.length_map _, rfl⟩
  | @serve log p _ transport query ih =>
    obtain ⟨hlength, hmax⟩ := tryEach_shape transport query p.tryOrder.1 0 p.tryOrder.2
    rw [Pool.tryOrder_upstreams] at hlength
    rw [Pool.tryOrder_maxFails] at hmax
    exact ⟨hlength.trans ih.1, hmax.trans ih.2⟩

theorem Run.healthy_iff (h : Run addrs policy maxFails log p) {idx : ℕ} :
    idx ∈ p.healthy ↔ idx < addrs.length ∧ failures idx log < (max maxFails 1).toNat := by
  rw [Pool.mem_healthy, ← h.shape.1, ← h.shape.2]
  refine and_congr_right fun hlt => ?_
  have hu := List.getElem?_eq_getElem hlt
  rw [Pool.isDown_eq hu, ← h.tracks.fails hu, ← Bool.not_eq_true, h.tracks.down hu,
    UInt32.le_iff_toNat_le, not_le]

end Run

end CaveHome.Dns.Forward
