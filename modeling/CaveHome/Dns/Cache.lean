import CaveHome.Dns.Message
import CaveHome.Lib.Dict
import Mathlib.Data.List.Forall2
import Mathlib.Data.List.MinMax

/-!
# The cache of responses

A response is kept for a time that its records give: the least of their TTLs for an answer, the
minimum of the zone for the absence of one.  Its TTLs are counted down while it is served.
-/

namespace CaveHome.Dns

def maxPositiveTtl : UInt32 := 3600

def maxNegativeTtl : UInt32 := 1800

structure CacheKey where
  name : Name
  qtype : RecordType
  qclass : Class
  dnssecOk : Bool

namespace CacheKey

def fromQuestion (q : Question) : CacheKey := ⟨q.name, q.qtype, q.qclass, false⟩

/-- Keys are equal when these are: the name in lower case and the rest. -/
def folded (key : CacheKey) : List Bytes × RecordType × Class × Bool :=
  (key.name.labels.map lowercase, key.qtype, key.qclass, key.dnssecOk)

end CacheKey

structure Entry where
  response : Message
  insertedAt : UInt64
  expiresAt : UInt64

structure Cache where
  entries : Dict (List Bytes × RecordType × Class × Bool) Entry
  capacity : Nat

/-- The records of the three sections. -/
def Message.records (m : Message) : List ResourceRecord := m.answers ++ m.authority ++ m.additional

/-- Subtraction that stops at zero. -/
def saturatingSub (a b : UInt32) : UInt32 := if a < b then 0 else a - b

def leastOf : List UInt32 → Option UInt32
  | [] => none
  | t :: ts =>
    match leastOf ts with
    | none => some t
    | some m => some (min t m)

def isNegative (response : Message) : Bool :=
  response.header.rcode = .nxDomain || response.answers.isEmpty

/-- The minimum of the first start of authority. -/
def soaMinimum (response : Message) : Option UInt32 :=
  response.authority.findSome? fun rr =>
    match rr.rdata with
    | .soa _ _ _ _ _ _ minimum => some minimum
    | _ => none

/-- How long to keep a response, if at all. -/
def cacheTtl (response : Message) : Option UInt32 :=
  if isNegative response then (soaMinimum response).map fun soaMin => min soaMin maxNegativeTtl
  else
    (leastOf ((response.records.filter fun rr => rr.rtype ≠ .opt).map ResourceRecord.ttl)).map
      fun least => min least maxPositiveTtl

def ResourceRecord.countDown (elapsed : UInt32) (rr : ResourceRecord) : ResourceRecord :=
  { rr with ttl := saturatingSub rr.ttl elapsed }

def Message.countDown (elapsed : UInt32) (m : Message) : Message :=
  { m with
    answers := m.answers.map (ResourceRecord.countDown elapsed)
    authority := m.authority.map (ResourceRecord.countDown elapsed)
    additional := m.additional.map (ResourceRecord.countDown elapsed) }

namespace Cache

def new (capacity : Nat) : Cache := ⟨∅, max capacity 1⟩

def len (c : Cache) : Nat := c.entries.entries.length

/-- The response that is kept under a key, unless its time is over. -/
def get (c : Cache) (key : CacheKey) (now : UInt64) : Option Message × Cache :=
  match c.entries.lookup key.folded with
  | none => (none, c)
  | some entry =>
    if entry.expiresAt ≤ now then (none, { c with entries := c.entries.erase key.folded })
    else (some (entry.response.countDown (now - entry.insertedAt).toUInt32), c)

/-- Remove the first entry that expires the soonest. -/
def evictOne (c : Cache) : Cache :=
  match c.entries.entries.argmin fun e => e.2.expiresAt.toNat with
  | none => c
  | some victim => { c with entries := c.entries.erase victim.1 }

/-- Keep a response; the time when it expires goes round at the end of the clock. -/
def insert (c : Cache) (key : CacheKey) (response : Message) (now : UInt64) : Cache :=
  match cacheTtl response with
  | none => c
  | some ttl =>
    if ttl = 0 then c
    else
      let c := if (c.entries.lookup key.folded).isNone ∧ c.capacity ≤ c.len then c.evictOne else c
      { c with entries := c.entries.insert key.folded ⟨response, now, now + ttl.toUInt64⟩ }

inductive Op
  | get (key : CacheKey)
  | insert (key : CacheKey) (response : Message)

/-- A call and its time. -/
structure Call where
  now : UInt64
  op : Op

def after (c : Cache) (call : Call) : Cache :=
  match call.op with
  | .get key => (c.get key call.now).2
  | .insert key response => c.insert key response call.now

/-- The calls that lead from a new cache to a cache, the times never going back.  The order in
which a hash map lists its entries may change at any time. -/
inductive Run (capacity : Nat) : List Call → Cache → Prop
  | new : Run capacity [] (Cache.new capacity)
  | call {calls : List Call} {c : Cache} (hrun : Run capacity calls c) (call : Call)
      (hnow : ∀ earlier ∈ calls, earlier.now ≤ call.now) :
      Run capacity (calls ++ [call]) (c.after call)
  | reorder {calls : List Call} {c : Cache} (hrun : Run capacity calls c)
      {entries : Dict (List Bytes × RecordType × Class × Bool) Entry}
      (horder : c.entries.Reordered entries) : Run capacity calls { c with entries := entries }

end Cache

/-! ## How long responses are kept -/

theorem leastOf_le {ts : List UInt32} {m t : UInt32} (h : leastOf ts = some m) (ht : t ∈ ts) :
    m.toNat ≤ t.toNat := by
  induction ts generalizing m with
  | nil => cases ht
  | cons t' ts ih =>
    rw [leastOf] at h
    cases hrest : leastOf ts with
    | none =>
      rw [hrest] at h
      obtain rfl : ts = [] := by
        cases ts with
        | nil => rfl
        | cons => rw [leastOf] at hrest; split at hrest <;> cases hrest
      obtain rfl := List.mem_singleton.mp ht
      exact Nat.le_of_eq (congrArg UInt32.toNat (Option.some.inj h).symm)
    | some m' =>
      rw [hrest] at h
      have hm : m.toNat = min t'.toNat m'.toNat := by
        rw [← Option.some.inj h, UInt32.toNat_min]
      rcases List.mem_cons.mp ht with rfl | ht
      · omega
      · have := ih hrest ht
        omega

theorem toNat_saturatingSub (a b : UInt32) : (saturatingSub a b).toNat = a.toNat - b.toNat := by
  unfold saturatingSub
  split_ifs with h
  · have hlt := UInt32.lt_iff_toNat_lt.mp h
    rw [UInt32.toNat_zero]
    omega
  · exact UInt32.toNat_sub_of_le _ _ (UInt32.not_lt.mp h)

/-- A record that pretends to be one, with the type code 41. -/
def ResourceRecord.IsOpt (rr : ResourceRecord) : Prop := rr.rtype.toU16 = 41

/-- Until when a record of a response can be served, counted from its insertion. -/
def Lasts (response : Message) (elapsed : Nat) : Prop :=
  if isNegative response then
    ∃ minimum, soaMinimum response = some minimum ∧ elapsed < min minimum.toNat 1800
  else ∀ rr ∈ response.records, ¬rr.IsOpt → elapsed < rr.ttl.toNat

theorem lasts_of_cacheTtl {response : Message} {ttl : UInt32} {elapsed : Nat}
    (h : cacheTtl response = some ttl) (hlt : elapsed < ttl.toNat) : Lasts response elapsed := by
  unfold cacheTtl at h
  unfold Lasts
  split_ifs at h ⊢
  · obtain ⟨minimum, hmin, rfl⟩ := Option.map_eq_some_iff.mp h
    rw [UInt32.toNat_min] at hlt
    exact ⟨minimum, hmin, hlt⟩
  · obtain ⟨least, hleast, rfl⟩ := Option.map_eq_some_iff.mp h
    intro rr hrr hopt
    rw [UInt32.toNat_min] at hlt
    have hne : rr.rtype ≠ .opt := by
      intro he
      exact hopt (congrArg RecordType.toU16 he)
    have hmem : rr.ttl ∈ (response.records.filter fun rr => rr.rtype ≠ .opt).map
        ResourceRecord.ttl := List.mem_map_of_mem (List.mem_filter.mpr ⟨hrr, by simpa using hne⟩)
    have := leastOf_le hleast hmem
    omega

theorem cacheTtl_le {response : Message} {ttl : UInt32} (h : cacheTtl response = some ttl) :
    ttl.toNat ≤ 3600 := by
  unfold cacheTtl at h
  split_ifs at h
  · obtain ⟨minimum, -, rfl⟩ := Option.map_eq_some_iff.mp h
    rw [UInt32.toNat_min]
    exact (Nat.min_le_right _ _).trans (by decide)
  · obtain ⟨least, -, rfl⟩ := Option.map_eq_some_iff.mp h
    rw [UInt32.toNat_min]
    exact Nat.min_le_right _ _

end CaveHome.Dns

/-!
## Freshness of cached responses

Whatever is asked and stored, a cached response is a stored one with its TTLs counted down, and it
is not served after it lasts.
-/

namespace CaveHome.Dns

/-- A record as it is served after some time.  Nothing is said about the TTL of a record that
pretends to be one. -/
structure Aged (elapsed : Nat) (rr served : ResourceRecord) : Prop where
  name : served.name = rr.name
  cls : served.cls = rr.cls
  rdata : served.rdata = rr.rdata
  ttl : ¬rr.IsOpt → served.ttl.toNat = rr.ttl.toNat - elapsed

/-- A response as it is served some time after it was stored. -/
structure Served (response : Message) (elapsed : Nat) (m : Message) : Prop where
  header : m.header = response.header
  questions : m.questions = response.questions
  answers : List.Forall₂ (Aged elapsed) response.answers m.answers
  authority : List.Forall₂ (Aged elapsed) response.authority m.authority
  additional : List.Forall₂ (Aged elapsed) response.additional m.additional
  lasts : Lasts response elapsed

theorem forall₂_countDown (elapsed : UInt32) (rrs : List ResourceRecord) :
    List.Forall₂ (Aged elapsed.toNat) rrs (rrs.map (ResourceRecord.countDown elapsed)) := by
  refine List.forall₂_map_right_iff.mpr (List.forall₂_same.mpr fun rr _ => ?_)
  exact ⟨rfl, rfl, rfl, fun _ => toNat_saturatingSub _ _⟩

theorem served_countDown {response : Message} {elapsed : UInt32}
    (h : Lasts response elapsed.toNat) :
    Served response elapsed.toNat (response.countDown elapsed) where
  header := rfl
  questions := rfl
  answers := forall₂_countDown elapsed _
  authority := forall₂_countDown elapsed _
  additional := forall₂_countDown elapsed _
  lasts := h

namespace Cache

/-- The entry is what a call stored under the key. -/
def Stored (calls : List Call) (key : List Bytes × RecordType × Class × Bool) (e : Entry) : Prop :=
  ∃ call ∈ calls, ∃ key' response ttl, call.op = .insert key' response ∧ key'.folded = key ∧
    cacheTtl response = some ttl ∧
    e = ⟨response, call.now, call.now + ttl.toUInt64⟩

/-- What holds in every run. -/
structure Inv (calls : List Call) (c : Cache) : Prop where
  capacity_pos : 0 < c.capacity
  len_le : c.len ≤ c.capacity
  stored : c.entries.All (Stored calls)

/-! ## The size -/

section

variable {κ ν : Type*} [DecidableEq κ]

theorem length_erase {m : Dict κ ν} {k : κ} {v : ν} (h : m.lookup k = some v) :
    (m.erase k).entries.length + 1 = m.entries.length := by
  rw [(Dict.entries_perm_cons_erase h).length_eq, List.length_cons]

theorem length_erase_le (m : Dict κ ν) (k : κ) :
    (m.erase k).entries.length ≤ m.entries.length := by
  cases h : m.lookup k with
  | none =>
    have hnot : k ∉ m := AList.lookup_eq_none.mp h
    exact Nat.le_of_eq (congrArg List.length (List.kerase_of_notMem_keys hnot))
  | some v => exact Nat.le_of_succ_le (Nat.le_of_eq (length_erase h))

theorem length_insert (m : Dict κ ν) (k : κ) (v : ν) :
    (m.insert k v).entries.length = (m.erase k).entries.length + 1 := rfl

end

theorem length_evictOne {c : Cache} (h : 0 < c.len) : c.evictOne.len + 1 = c.len := by
  unfold evictOne
  split
  next hnone =>
    have hempty := List.argmin_eq_none.mp hnone
    rw [len, hempty] at h
    cases h
  next victim hsome =>
    have hmem := List.argmin_mem (Option.mem_def.mpr hsome)
    exact length_erase (Dict.mem_entries_iff.mp hmem)

theorem evictOne_capacity (c : Cache) : c.evictOne.capacity = c.capacity := by
  unfold evictOne
  split <;> rfl

theorem all_evictOne {c : Cache} {P : List Bytes × RecordType × Class × Bool → Entry → Prop}
    (h : c.entries.All P) : c.evictOne.entries.All P := by
  unfold evictOne
  split
  · exact h
  · exact h.erase _

/-! ## One call -/

variable {calls : List Call} {c : Cache}

theorem Stored.append {key : List Bytes × RecordType × Class × Bool} {e : Entry}
    (h : Stored calls key e) (call : Call) : Stored (calls ++ [call]) key e := by
  obtain ⟨call', hmem, h⟩ := h
  exact ⟨call', List.mem_append_left _ hmem, h⟩

theorem Inv.append (h : Inv calls c) (call : Call) : Inv (calls ++ [call]) c where
  capacity_pos := h.capacity_pos
  len_le := h.len_le
  stored := fun k e hk => (h.stored k e hk).append call

theorem Inv.get (h : Inv calls c) (key : CacheKey) (now : UInt64) :
    Inv calls (c.get key now).2 := by
  unfold Cache.get
  split
  · exact h
  · split_ifs
    · exact ⟨h.capacity_pos, (length_erase_le _ _).trans h.len_le, h.stored.erase _⟩
    · exact h

theorem Inv.insert (h : Inv calls c) (key : CacheKey) (response : Message) (now : UInt64) :
    Inv (calls ++ [⟨now, .insert key response⟩]) (c.insert key response now) := by
  unfold Cache.insert
  cases httl : cacheTtl response with
  | none => exact h.append _
  | some ttl =>
    dsimp only
    split_ifs with hzero hroom
    · exact h.append _
    · have hnew : Stored (calls ++ [⟨now, .insert key response⟩]) key.folded
          ⟨response, now, now + ttl.toUInt64⟩ :=
        ⟨_, List.mem_append_right _ (List.mem_singleton_self _), key, response, ttl, rfl, rfl,
          httl, rfl⟩
      have hpos : 0 < c.len := lt_of_lt_of_le h.capacity_pos hroom.2
      have hlen := length_evictOne hpos
      refine ⟨(evictOne_capacity c).symm ▸ h.capacity_pos, ?_,
        (all_evictOne (h.append _).stored).insert hnew⟩
      have herase := length_erase_le c.evictOne.entries key.folded
      have hle := h.len_le
      show (c.evictOne.entries.insert key.folded _).entries.length ≤ c.evictOne.capacity
      rw [length_insert, evictOne_capacity]
      exact (Nat.succ_le_succ herase).trans (hlen.le.trans hle)
    · have hnew : Stored (calls ++ [⟨now, .insert key response⟩]) key.folded
          ⟨response, now, now + ttl.toUInt64⟩ :=
        ⟨_, List.mem_append_right _ (List.mem_singleton_self _), key, response, ttl, rfl, rfl,
          httl, rfl⟩
      refine ⟨h.capacity_pos, ?_, (h.append _).stored.insert hnew⟩
      show (c.entries.insert key.folded _).entries.length ≤ c.capacity
      rw [length_insert]
      cases hlookup : c.entries.lookup key.folded with
      | none =>
        have hlt : c.len < c.capacity := by
          simpa [hlookup] using hroom
        exact (Nat.succ_le_succ (length_erase_le _ _)).trans hlt
      | some e => exact (length_erase hlookup).le.trans h.len_le

theorem Run.inv {capacity : Nat} (hrun : Run capacity calls c) : Inv calls c := by
  induction hrun with
  | new => exact ⟨lt_of_lt_of_le Nat.one_pos (Nat.le_max_right _ _), Nat.zero_le _, Dict.all_empty⟩
  | call hrun call hnow ih =>
    obtain ⟨now, op⟩ := call
    cases op with
    | get key => exact (ih.get key now).append _
    | insert key response => exact ih.insert key response now
  | reorder hrun horder ih =>
    refine ⟨ih.capacity_pos, ?_, ih.stored.of_lookup_eq horder.lookup_eq⟩
    exact (List.Perm.length_eq horder).symm.trans_le ih.len_le

theorem elapsed_lt {t now : UInt64} {ttl : UInt32} (ht : t ≤ now) (h : ¬t + ttl.toUInt64 ≤ now) :
    now.toNat - t.toNat < ttl.toNat := by
  have ht := UInt64.le_iff_toNat_le.mp ht
  have hlt := UInt64.lt_iff_toNat_lt.mp (UInt64.not_le.mp h)
  rw [UInt64.toNat_add, UInt32.toNat_toUInt64] at hlt
  have hnow := now.toNat_lt
  have hmod := Nat.mod_add_div (t.toNat + ttl.toNat) (2 ^ 64)
  omega

theorem toNat_elapsed {t now : UInt64} (ht : t ≤ now) (h : now.toNat - t.toNat ≤ 3600) :
    (now - t).toUInt32.toNat = now.toNat - t.toNat := by
  rw [UInt64.toNat_toUInt32, UInt64.toNat_sub_of_le _ _ ht]
  exact Nat.mod_eq_of_lt (by omega)

/-- In every run the cache is within its capacity, and what it serves was stored under an equal
key, has its TTLs counted down, and still lasts. -/
theorem served_fresh {capacity : Nat} (hrun : Run capacity calls c) :
    c.len ≤ c.capacity ∧ ∀ key now m, (∀ call ∈ calls, call.now ≤ now) →
      (c.get key now).1 = some m → ∃ call ∈ calls, ∃ key' response,
        call.op = .insert key' response ∧ key'.folded = key.folded ∧
        Served response (now.toNat - call.now.toNat) m := by
  have hinv := hrun.inv
  refine ⟨hinv.len_le, fun key now m hnow hget => ?_⟩
  unfold Cache.get at hget
  split at hget
  next => cases hget
  next entry hlookup =>
    split_ifs at hget with hexpired
    obtain ⟨call, hmem, key', response, ttl, hop, hkey, httl, rfl⟩ := hinv.stored _ _ hlookup
    have hlt := elapsed_lt (hnow call hmem) hexpired
    have helapsed := toNat_elapsed (hnow call hmem) (hlt.le.trans (cacheTtl_le httl))
    have hlasts : Lasts response (now - call.now).toUInt32.toNat :=
      lasts_of_cacheTtl httl (helapsed.symm ▸ hlt)
    have hserved := served_countDown hlasts
    rw [helapsed] at hserved
    exact ⟨call, hmem, key', response, hop, hkey, Option.some.inj hget ▸ hserved⟩

/-! ## An answer and the absence of one -/

def demoName : Name := ⟨[[0x61]], by decide, by decide⟩

def demoKey : CacheKey := ⟨demoName, .a, .internet, false⟩

/-- An answer with a TTL of 100. -/
def demoAnswer : Message :=
  { Message.empty 1 with
    answers := [⟨demoName, .internet, 100, .a ⟨[9, 9, 9, 9], rfl⟩⟩] }

/-- No data; the start of authority has a TTL of 10 and a minimum of 50. -/
def demoNoData : Message :=
  { Message.empty 1 with
    authority := [⟨.root, .internet, 10, .soa demoName demoName 1 7200 3600 1209600 50⟩] }

/-- The answer with a pseudo-record that sets the DO bit. -/
def demoEdns : Message :=
  { demoAnswer with additional := [⟨.root, .unknown 4096, 0x8000, .unknown 41 []⟩] }

/-- A failure of the server that comes with a start of authority. -/
def demoServFail : Message :=
  { demoNoData with header := { demoNoData.header with rcode := .servFail } }

theorem served_fresh_answer :
    let c := (Cache.new 16).after ⟨1000, .insert demoKey demoAnswer⟩
    c.len ≤ c.capacity ∧ ∀ key now m,
      (∀ call ∈ [⟨1000, .insert demoKey demoAnswer⟩], Call.now call ≤ now) →
      (c.get key now).1 = some m → ∃ call ∈ [⟨1000, .insert demoKey demoAnswer⟩],
        ∃ key' response, Call.op call = .insert key' response ∧ key'.folded = key.folded ∧
          Served response (now.toNat - call.now.toNat) m :=
  served_fresh (Run.call Run.new ⟨1000, .insert demoKey demoAnswer⟩
    fun _ h => absurd h List.not_mem_nil)

/-- A start of authority with a TTL of 10 is served after 20 seconds, a pseudo-record is served
without the DO bit, and a failure of the server is kept. -/
theorem cache_departures :
    (demoNoData.authority.map (fun rr => (rr.rtype, rr.ttl)) = [(.soa, 10)] ∧
      ((((Cache.new 16).after ⟨0, .insert demoKey demoNoData⟩).get demoKey 20).1.map fun m =>
        m.authority.map fun rr => (rr.rtype, rr.ttl)) = some [(.soa, 0)]) ∧
    (demoEdns.additional.map (fun rr => (rr.rtype.toU16, rr.ttl)) = [(41, 0x8000)] ∧
      ((((Cache.new 16).after ⟨0, .insert demoKey demoEdns⟩).get demoKey 20).1.map fun m =>
        m.additional.map fun rr => (rr.rtype.toU16, rr.ttl)) = some [(41, 0x7FEC)]) ∧
    demoServFail.header.rcode = .servFail ∧
      ((((Cache.new 16).after ⟨0, .insert demoKey demoServFail⟩).get demoKey 20).1.map fun m =>
        m.header.rcode) = some .servFail := by
  decide

end Cache

end CaveHome.Dns
