import CaveHome.Kine.Grpc

/-!
# Concurrent transactions

A transaction of the server takes the lock once to evaluate its comparisons, once for every
operation of the chosen branch, and once for the header of its reply.  A `Server` runs any number
of such transactions on one store; a schedule says whose critical section comes next.

The transactions considered here all guard one key with its mod revision and put that key when the
guard holds.  The guard and the put are two critical sections, so two transactions can both pass
the guard before either writes.  The file shows that this is the only way in which two of them
succeed: in a schedule where no guard is evaluated while another transaction has passed its guard
and not yet written, at most one succeeds.
-/

namespace CaveHome.Kine.Etcd

/-! ## The steps of a transaction -/

/-- Where a transaction stands between two critical sections. -/
inductive TxnProc
  | ready (req : TxnRequest)
  | running (succeeded : Bool) (ops : List RequestOp) (responses : List ResponseOp)
  | done (result : Except Status TxnResponse)
  deriving DecidableEq

namespace TxnProc

/-- The next critical section of a transaction. -/
def step (t : SqliteStore) : TxnProc → TxnProc × SqliteStore
  | .ready req =>
    match evalCompares t req.compare with
    | .error e => (.done (.error (status e)), t)
    | .ok succeeded =>
      (.running succeeded (if succeeded then req.success else req.failure) [], t)
  | .running succeeded [] responses =>
    (.done (.ok { header := { revision := t.currentRevision }, succeeded, responses }), t)
  | .running succeeded (op :: ops) responses =>
    match execOp t op with
    | (.error e, t') => (.done (.error e), t')
    | (.ok r, t') => (.running succeeded ops (responses ++ [r]), t')
  | .done result => (.done result, t)

/-- The transaction has replied that its guard held. -/
def Reported (p : TxnProc) : Prop := ∃ res, p = .done (.ok res) ∧ res.succeeded = true

/-- The transaction has passed its guard and has yet to put the key. -/
def pending (k : Bytes) : TxnProc → Bool
  | .running true ops _ => ops.any fun
    | .put p => decide (p.key = k)
    | _ => false
  | _ => false

/-- The next critical section is a put of the key in the success branch, and it succeeds. -/
def writesNow (k : Bytes) (t : SqliteStore) : TxnProc → Bool
  | .running true (.put p :: _) _ => decide (p.key = k) && (doPut t p).1.isOk
  | _ => false

def isReady : TxnProc → Bool
  | .ready _ => true
  | _ => false

end TxnProc

/-- A store, the transactions running on it, and those that have put the key, in order. -/
structure Server (ι : Type) where
  store : SqliteStore
  procs : ι → TxnProc
  writers : List ι

namespace Server

variable {ι : Type} [DecidableEq ι]

/-- All transactions wait for their first critical section. -/
def start (t : SqliteStore) (reqs : ι → TxnRequest) : Server ι where
  store := t
  procs i := .ready (reqs i)
  writers := []

/-- Transaction `i` takes its next critical section. -/
def step (k : Bytes) (sys : Server ι) (i : ι) : Server ι where
  store := ((sys.procs i).step sys.store).2
  procs := Function.update sys.procs i ((sys.procs i).step sys.store).1
  writers := if (sys.procs i).writesNow k sys.store then sys.writers ++ [i] else sys.writers

/-- The server after a schedule. -/
def run (k : Bytes) (sys : Server ι) (schedule : List ι) : Server ι :=
  schedule.foldl (step k) sys

/-- A guard is evaluated only while no other transaction is between its guard and its put. -/
def MayStep (k : Bytes) (sys : Server ι) (i : ι) : Prop :=
  (sys.procs i).isReady = true → ∀ j, j ≠ i → (sys.procs j).pending k = false

/-- Every step of a schedule respects `MayStep`. -/
def Serial (k : Bytes) : Server ι → List ι → Prop
  | _, [] => True
  | sys, i :: schedule => MayStep k sys i ∧ Serial k (sys.step k i) schedule

end Server

/-- The request compares the mod revision of `k` with `r` and puts `k` when the guard holds. -/
structure TxnRequest.Guards (req : TxnRequest) (k : Bytes) (r : Int) : Prop where
  compare : ∃ c ∈ req.compare, c.key = k ∧ compareTarget c.target = .modRevision ∧
    c.targetUnion = some (.modRevision r) ∧ compareResult c.result = .equal
  put : ∃ p, RequestOp.put p ∈ req.success ∧ p.key = k

/-- Whether an operation can delete the key. -/
def RequestOp.deletes (k : Bytes) : RequestOp → Bool
  | .deleteRange d =>
    match toKineRangeBytes d.key d.rangeEnd with
    | .ok selector => selector.contains k
    | .error _ => false
  | _ => false

/-! ## What operations insert -/

/-- `t'` is `t` after inserts of rows that satisfy `P`. -/
inductive Grows (P : SqlRow → Prop) (t : SqliteStore) : SqliteStore → Prop
  | refl : Grows P t t
  | insert {u u' : SqliteStore} {row : SqlRow} :
      Grows P t u → P row → u.Inserted row u' → Grows P t u'

theorem Grows.single {P : SqlRow → Prop} {t t' : SqliteStore} {row : SqlRow} (hp : P row)
    (h : t.Inserted row t') : Grows P t t' :=
  .insert .refl hp h

theorem Grows.trans {P : SqlRow → Prop} {t u v : SqliteStore} (h₁ : Grows P t u)
    (h₂ : Grows P u v) : Grows P t v := by
  induction h₂ with
  | refl => exact h₁
  | insert _ hp hi ih => exact .insert ih hp hi

theorem Grows.preserves {P : SqlRow → Prop} {Q : SqliteStore → Prop} {t t' : SqliteStore}
    (hstep : ∀ u row u', Q u → P row → u.Inserted row u' → Q u') (h : Grows P t t') (hq : Q t) :
    Q t' := by
  induction h with
  | refl => exact hq
  | insert _ hp hi ih => exact hstep _ _ _ ih hp hi

/-- A put failed and changed nothing, or inserted a live row of its key. -/
def PutOutcome (t : SqliteStore) (key : Bytes) (x : Except Status PutResponse × SqliteStore) :
    Prop :=
  ((∃ e, x.1 = .error e) ∧ x.2 = t) ∨ ((∃ resp, x.1 = .ok resp) ∧
    ∃ row, row.key = key ∧ row.deleted = false ∧ t.Inserted row x.2)

theorem putOver_outcome (t : SqliteStore) (p : PutRequest) (prev : Option Row) :
    PutOutcome t p.key (putOver t p prev) := by
  unfold putOver
  dsimp only
  generalize (if p.ignoreValue then (prev.map Row.value).getD [] else p.value) = value
  generalize (if p.ignoreLease then (prev.map Row.lease).getD 0 else p.lease) = lease
  have hput := t.put_cases p.key value lease
  cases hp : t.put p.key value lease with
  | mk res t' =>
    rw [hp] at hput
    rcases hput with ⟨⟨e, he⟩, ht⟩ | ⟨row, hok, hrow⟩
    · rw [show res = .error e from he]
      exact Or.inl ⟨⟨_, rfl⟩, ht⟩
    · rw [show res = .ok row.id from hok]
      exact Or.inr ⟨⟨_, rfl⟩, row, hrow⟩

theorem doPut_outcome (t : SqliteStore) (p : PutRequest) : PutOutcome t p.key (doPut t p) := by
  unfold doPut
  split_ifs
  · exact Or.inl ⟨⟨_, rfl⟩, rfl⟩
  · split
    · exact Or.inl ⟨⟨_, rfl⟩, rfl⟩
    · exact putOver_outcome t p _

theorem deleteRows_grows (wantPrev : Bool) (victims : List Row) (deleted : Int)
    (prevKvs : List KeyValue) (t : SqliteStore) :
    Grows (fun row => ∃ v ∈ victims, row.key = v.key) t
      (deleteRows wantPrev victims deleted prevKvs t).2 := by
  induction victims generalizing deleted prevKvs t with
  | nil => exact .refl
  | cons v victims ih =>
    have hweak : ∀ {deleted prevKvs t}, Grows (fun row => ∃ v' ∈ v :: victims, row.key = v'.key) t
        (deleteRows wantPrev victims deleted prevKvs t).2 := fun {deleted prevKvs t} => by
      refine (ih deleted prevKvs t).preserves (fun u row u' hu hp hi => ?_) .refl
      obtain ⟨w, hw, hk⟩ := hp
      exact .insert hu ⟨w, List.mem_cons_of_mem _ hw, hk⟩ hi
    have hone : Grows (fun row => ∃ v' ∈ v :: victims, row.key = v'.key) t (t.delete v.key).2 := by
      rcases t.delete_cases v.key with h | ⟨row, hk, -, hi⟩
      · rw [h]
        exact .refl
      · exact .single ⟨v, List.mem_cons_self, hk⟩ hi
    unfold deleteRows
    cases hd : t.delete v.key with
    | mk res t' =>
      rw [hd] at hone
      rcases res with e | _ | rev
      · exact hone
      · exact hone.trans hweak
      · exact hone.trans hweak

theorem doDeleteRange_grows (t : SqliteStore) (d : DeleteRangeRequest) :
    Grows (fun row => RequestOp.deletes row.key (.deleteRange d) = true) t
      (doDeleteRange t d).2 := by
  unfold doDeleteRange
  cases hs : toKineRangeBytes d.key d.rangeEnd with
  | error e => exact .refl
  | ok selector =>
    dsimp only
    cases hr : t.range selector with
    | error e => exact .refl
    | ok resp =>
      dsimp only
      have hgrow := deleteRows_grows d.prevKv resp.kvs 0 [] t
      have hweak : Grows (fun row => RequestOp.deletes row.key (.deleteRange d) = true) t
          (deleteRows d.prevKv resp.kvs 0 [] t).2 := by
        refine hgrow.preserves (fun u row u' hu hp hi => .insert hu ?_ hi) .refl
        obtain ⟨v, hv, hk⟩ := hp
        simpa [RequestOp.deletes, hs, hk] using SqliteStore.contains_of_mem_range hr hv
      cases hd : deleteRows d.prevKv resp.kvs 0 [] t with
      | mk res t' =>
        rw [hd] at hweak
        rcases res with e | ⟨n, kvs⟩
        · exact hweak
        · exact hweak

section Guarded

variable {k : Bytes} {r : Int}

theorem execOp_grows (t : SqliteStore) {op : RequestOp} (hd : r = 0 → op.deletes k = false) :
    Grows (fun row => row.key = k → r = 0 → row.deleted = false) t (execOp t op).2 := by
  cases op with
  | range q => exact .refl
  | none => exact .refl
  | put p =>
    rcases doPut_outcome t p with ⟨-, h⟩ | ⟨-, row, -, hdel, hi⟩
    · exact h.symm ▸ .refl
    · exact .single (fun _ _ => hdel) hi
  | deleteRange d =>
    refine (doDeleteRange_grows t d).preserves (fun u row u' hu hp hi => .insert hu ?_ hi) .refl
    rintro rfl h0
    rw [hd h0] at hp
    cases hp

/-! ## Reading the guarded key -/

/-- The newest row of the key was written after revision `r`, and is live when `r` stands for a
missing key.  From then on the guard does not hold again. -/
def Moved (k : Bytes) (r : Int) (t : SqliteStore) : Prop :=
  ∃ row, VersionedLog.last SqlRow.key t.rows k = some row ∧ r < row.id ∧
    (r = 0 → row.deleted = false)

theorem moved_inserted {t t' : SqliteStore} {row : SqlRow} (h : t.Inserted row t')
    (hk : row.key = k) (hd : r = 0 → row.deleted = false) (hr : r ≤ t.seq) : Moved k r t' := by
  refine ⟨row, ?_, ?_, hd⟩
  · rw [h.rows, VersionedLog.last_concat, if_pos hk]
  · rw [h.id]
    omega

theorem Moved.inserted {t t' : SqliteStore} {row : SqlRow} (hm : Moved k r t)
    (hp : row.key = k → r = 0 → row.deleted = false) (h : t.Inserted row t') : Moved k r t' := by
  obtain ⟨old, hold, hlt, hdel⟩ := hm
  by_cases hk : row.key = k
  · have := t.le_seq old (VersionedLog.last_mem hold)
    exact moved_inserted h hk (hp hk) (by omega)
  · refine ⟨old, ?_, hlt, hdel⟩
    rw [h.rows, VersionedLog.last_concat, if_neg hk, hold]

theorem Moved.grows {t t' : SqliteStore} (hm : Moved k r t)
    (h : Grows (fun row => row.key = k → r = 0 → row.deleted = false) t t') : Moved k r t' :=
  h.preserves (fun _ _ _ hm hp hi => hm.inserted hp hi) hm

theorem seq_le_of_grows {P : SqlRow → Prop} {t t' : SqliteStore} (h : Grows P t t') :
    t.seq ≤ t'.seq :=
  h.preserves (Q := fun u => t.seq ≤ u.seq) (fun _ _ _ hu _ hi => by rw [hi.seq]; omega) le_rfl

/-- The mod revision that a comparison reads. -/
def readMod (resp : Kine.RangeResponse) : Int := (resp.kvs.head?.map Row.modRevision).getD 0

theorem mem_range_ofKey {t : SqliteStore} {resp : Kine.RangeResponse}
    (h : t.range (.ofKey k) = .ok resp) {row : Row} :
    row ∈ resp.kvs ↔ ∃ q ∈ t.rows, q.toRow = row ∧ q.isUser = true ∧ q.deleted = false ∧
      q.key = k ∧ ∀ q' ∈ t.rows, q'.key = k → q'.id ≤ q.id := by
  obtain ⟨readRev, hread, rfl⟩ := SqliteStore.range_eq_ok h
  obtain rfl : readRev = t.currentRevision := (Except.ok.inj hread).symm
  have hkvs : (respond (.ofKey k) t.currentRevision ((t.listRows (.ofKey k)
      t.currentRevision).insertionSort fun a b => a.key ≤ b.key)).kvs =
      (t.listRows (.ofKey k) t.currentRevision).insertionSort fun a b => a.key ≤ b.key := rfl
  rw [hkvs, List.mem_insertionSort, SqliteStore.mem_listRows rfl (fun _ => rfl)]
  refine exists_congr fun q => and_congr_right fun hq => and_congr_right fun hrow => ?_
  subst hrow
  have hcontains : RangeRequest.contains (.ofKey k) q.toRow.key = true ↔ q.key = k :=
    decide_eq_true_iff
  rw [hcontains]
  refine and_congr_right fun hu => and_congr_right fun _ => and_congr_right fun hk => ?_
  constructor
  · rintro ⟨-, hmax⟩ q' hq' hk'
    have hname : q'.name = q.name := SqlRow.name_eq_of_key_eq (hk'.trans hk.symm)
    have hu' : q'.isUser = true := by simpa [SqlRow.isUser, hname] using hu
    exact hmax q' hq' hname (SqliteStore.le_currentRevision hq' hu')
  · intro hmax
    refine ⟨SqliteStore.le_currentRevision hq hu, fun q' hq' hname _ => hmax q' hq' ?_⟩
    exact (congrArg Bytes.ofString hname).trans hk

theorem readMod_le_seq {t : SqliteStore} {resp : Kine.RangeResponse}
    (h : t.range (.ofKey k) = .ok resp) : readMod resp ≤ t.seq := by
  unfold readMod
  cases hh : resp.kvs.head? with
  | none => exact t.seq_nonneg
  | some row =>
    obtain ⟨q, hq, rfl, -⟩ := (mem_range_ofKey h).1 (List.mem_of_mem_head? hh)
    exact t.le_seq q hq

theorem readMod_ne_of_moved {t : SqliteStore} (hk : k ≠ Bytes.ofString compactRevKey)
    (hm : Moved k r t) {resp : Kine.RangeResponse} (h : t.range (.ofKey k) = .ok resp) :
    readMod resp ≠ r := by
  obtain ⟨row, hlast, hlt, hlive⟩ := hm
  have hrow := VersionedLog.last_mem hlast
  have hrk : row.key = k := VersionedLog.last_key hlast
  unfold readMod
  cases hh : resp.kvs.head? with
  | some x =>
    obtain ⟨q, -, rfl, -, -, -, hmax⟩ := (mem_range_ofKey h).1 (List.mem_of_mem_head? hh)
    have hle : row.id ≤ q.id := hmax row hrow hrk
    intro he
    have hmod : q.id = r := he
    omega
  | none =>
    -- nothing is read, so the newest row of the key is no live row
    intro he
    have h0 : r = 0 := he.symm
    have hmem : row.toRow ∈ resp.kvs := by
      refine (mem_range_ofKey h).2 ⟨row, hrow, rfl, ?_, hlive h0, hrk, fun q hq hqk => ?_⟩
      · exact SqlRow.isUser_iff.2 (hrk ▸ hk)
      · exact VersionedLog.rev_le_of_last (t.sorted.imp le_of_lt) hlast hq hqk
    rw [List.head?_eq_none_iff.1 hh] at hmem
    cases hmem

theorem readMod_of_guard {t : SqliteStore} {cs : List Compare} (h : evalCompares t cs = .ok true)
    {c : Compare} (hc : c ∈ cs) (hkey : c.key = k)
    (htarget : compareTarget c.target = .modRevision)
    (hunion : c.targetUnion = some (.modRevision r)) (hresult : compareResult c.result = .equal) :
    ∃ resp, t.range (.ofKey k) = .ok resp ∧ readMod resp = r := by
  induction cs with
  | nil => cases hc
  | cons c' cs ih =>
    unfold evalCompares at h
    cases he : evalCompare t c' with
    | error e => simp [he, bind, Except.bind] at h
    | ok b =>
      cases b with
      | false => simp [he, bind, Except.bind, pure, Except.pure] at h
      | true =>
        rw [he] at h
        rcases List.mem_cons.1 hc with rfl | hc
        · subst hkey
          unfold evalCompare at he
          cases hr : t.range (.ofKey c.key) with
          | error e => simp [hr, bind, Except.bind] at he
          | ok resp =>
            refine ⟨resp, rfl, ?_⟩
            rw [hr] at he
            dsimp only [bind, Except.bind, pure, Except.pure] at he
            rw [htarget, hunion, hresult] at he
            exact (cmp_eq_eq_iff _ _).1 (Ordering.isEq_iff_eq_eq.1 (Except.ok.inj he))
        · exact ih h hc

end Guarded

/-! ## At most one transaction succeeds -/

namespace TxnProc

/-- The operations a transaction may still run. -/
def mayRun : TxnProc → List RequestOp
  | .ready req => req.success ++ req.failure
  | .running _ ops _ => ops
  | .done _ => []

/-- The transaction has passed its guard and has not failed. -/
def Holds : TxnProc → Prop
  | .ready _ => False
  | .running succeeded _ _ => succeeded = true
  | .done (.ok res) => res.succeeded = true
  | .done (.error _) => False

theorem Reported.holds {p : TxnProc} (h : p.Reported) : p.Holds := by
  obtain ⟨res, rfl, hs⟩ := h
  exact hs

end TxnProc

namespace Server

variable {ι : Type} [DecidableEq ι] {k : Bytes} {r : Int}

/-- A transaction that has passed its guard, or has put the key. -/
def Claims (sys : Server ι) (i : ι) : Prop := (sys.procs i).Holds ∨ i ∈ sys.writers

/-- What every schedule that respects `MayStep` maintains. -/
structure Inv (k : Bytes) (r : Int) (sys : Server ι) : Prop where
  guards : ∀ i req, sys.procs i = .ready req → req.Guards k r
  keeps : r = 0 → ∀ i, ∀ op ∈ (sys.procs i).mayRun, op.deletes k = false
  one : ∀ i j, sys.Claims i → sys.Claims j → i = j
  wrote : ∀ i, (sys.procs i).Holds → (sys.procs i).pending k = false → i ∈ sys.writers
  moved : ∀ i ∈ sys.writers, Moved k r sys.store
  bound : ∀ i, sys.Claims i → r ≤ sys.store.seq

omit [DecidableEq ι] in
theorem inv_start {t : SqliteStore} {reqs : ι → TxnRequest} (hg : ∀ i, (reqs i).Guards k r)
    (hd : r = 0 → ∀ i, ∀ op ∈ (reqs i).success ++ (reqs i).failure, op.deletes k = false) :
    Inv k r (start t reqs) := by
  refine ⟨?_, hd, ?_, ?_, ?_, ?_⟩
  · intro i req h
    cases h
    exact hg i
  · rintro i j (h | h) -
    · cases h
    · cases h
  · intro i h
    cases h
  · intro i h
    cases h
  · rintro i (h | h)
    · cases h
    · cases h

theorem Inv.step_of {sys : Server ι} (h : Inv k r sys) (i : ι)
    (hgrow : Grows (fun row => row.key = k → r = 0 → row.deleted = false) sys.store
      (sys.step k i).store)
    (hready : ∀ req, (sys.step k i).procs i ≠ .ready req)
    (hops : ∀ op ∈ ((sys.step k i).procs i).mayRun, op ∈ (sys.procs i).mayRun)
    (hclaim : (sys.step k i).Claims i → sys.Claims i ∨
      (∀ j, ¬ sys.Claims j) ∧ r ≤ sys.store.seq)
    (hwrote : ((sys.step k i).procs i).Holds → ((sys.step k i).procs i).pending k = false →
      i ∈ (sys.step k i).writers)
    (hmoved : i ∈ (sys.step k i).writers → i ∉ sys.writers → Moved k r (sys.step k i).store) :
    Inv k r (sys.step k i) := by
  have hother : ∀ j, j ≠ i → (sys.step k i).procs j = sys.procs j := fun j hj =>
    Function.update_of_ne hj _ _
  have hwriters : ∀ j, j ∈ (sys.step k i).writers → j ∈ sys.writers ∨ j = i := by
    intro j hj
    simp only [step] at hj
    split_ifs at hj
    · simpa using hj
    · exact Or.inl hj
  have hsub : ∀ j, j ∈ sys.writers → j ∈ (sys.step k i).writers := by
    intro j hj
    simp only [step]
    split_ifs
    · exact List.mem_append_left _ hj
    · exact hj
  have hclaims : ∀ j, j ≠ i → (sys.step k i).Claims j → sys.Claims j := by
    rintro j hj (hc | hc)
    · exact Or.inl (hother j hj ▸ hc)
    · exact Or.inr ((hwriters j hc).resolve_right hj)
  have hseq := seq_le_of_grows hgrow
  refine ⟨?_, ?_, ?_, ?_, ?_, ?_⟩
  · intro j req hj
    by_cases hji : j = i
    · exact absurd (hji ▸ hj) (hready req)
    · exact h.guards j req (hother j hji ▸ hj)
  · intro h0 j op hop
    by_cases hji : j = i
    · subst hji
      exact h.keeps h0 j op (hops op hop)
    · rw [hother j hji] at hop
      exact h.keeps h0 j op hop
  · -- a new claim of `i` meets no old claim
    have halone : ∀ j, j ≠ i → (sys.step k i).Claims i → ¬ (sys.step k i).Claims j := by
      intro j hji hi hj
      rcases hclaim hi with hi | ⟨hno, -⟩
      · exact hji (h.one j i (hclaims j hji hj) hi)
      · exact hno j (hclaims j hji hj)
    intro a b ha hb
    by_cases hai : a = i
    · by_contra hne
      exact halone b (fun hbi => hne (hai.trans hbi.symm)) (hai ▸ ha) hb
    · by_cases hbi : b = i
      · exact absurd ha (halone a hai (hbi ▸ hb))
      · exact h.one a b (hclaims a hai ha) (hclaims b hbi hb)
  · intro j hj hp
    by_cases hji : j = i
    · subst hji
      exact hwrote hj hp
    · rw [hother j hji] at hj hp
      exact hsub j (h.wrote j hj hp)
  · intro j hj
    by_cases hold : j ∈ sys.writers
    · exact (h.moved j hold).grows hgrow
    · obtain rfl := (hwriters j hj).resolve_left hold
      exact hmoved hj hold
  · intro j hj
    by_cases hji : j = i
    · subst hji
      rcases hclaim hj with hc | ⟨-, hr⟩
      · exact (h.bound j hc).trans hseq
      · exact hr.trans hseq
    · exact (h.bound j (hclaims j hji hj)).trans hseq

theorem step_self (sys : Server ι) (i : ι) :
    (sys.step k i).procs i = ((sys.procs i).step sys.store).1 :=
  Function.update_self _ _ _

theorem step_writers_of_not {sys : Server ι} {i : ι}
    (h : (sys.procs i).writesNow k sys.store = false) :
    (sys.step k i).writers = sys.writers := by
  simp only [step, h, Bool.false_eq_true, if_false]

theorem Inv.step_ready {sys : Server ι} (h : Inv k r sys)
    (hk : k ≠ Bytes.ofString compactRevKey) {i : ι} {req : TxnRequest}
    (hp : sys.procs i = .ready req) (hm : MayStep k sys i) : Inv k r (sys.step k i) := by
  have hnow : (sys.procs i).writesNow k sys.store = false := by rw [hp]; rfl
  have hw := step_writers_of_not hnow
  have hself := step_self (k := k) sys i
  have hstore : (sys.step k i).store = sys.store := by
    simp only [step, hp, TxnProc.step]
    split <;> rfl
  have hwriter : i ∈ (sys.step k i).writers → sys.Claims i := fun hi => Or.inr (hw ▸ hi)
  rw [hp] at hself
  cases he : evalCompares sys.store req.compare with
  | error e =>
    have hproc : (sys.step k i).procs i = .done (.error (status e)) := by
      rw [hself]
      simp only [TxnProc.step, he]
    refine h.step_of i (hstore ▸ .refl) ?_ ?_ ?_ ?_ ?_
    · rw [hproc]
      rintro req ⟨⟩
    · rw [hproc]
      rintro op ⟨⟩
    · rintro (hc | hc)
      · rw [hproc] at hc
        cases hc
      · exact Or.inl (hwriter hc)
    · intro hc
      rw [hproc] at hc
      cases hc
    · exact fun hi hno => absurd (hw ▸ hi) hno
  | ok b =>
    have hproc : (sys.step k i).procs i =
        .running b (if b then req.success else req.failure) [] := by
      rw [hself]
      simp only [TxnProc.step, he]
    refine h.step_of i (hstore ▸ .refl) ?_ ?_ ?_ ?_ ?_
    · rw [hproc]
      rintro req ⟨⟩
    · rw [hproc, hp]
      intro op hop
      cases b with
      | true => exact List.mem_append_left _ hop
      | false => exact List.mem_append_right _ hop
    · rintro (hc | hc)
      · rw [hproc] at hc
        have hb : b = true := hc
        subst hb
        obtain ⟨c, hcmem, hckey, htarget, hunion, hresult⟩ := (h.guards i req hp).compare
        obtain ⟨resp, hresp, hread⟩ := readMod_of_guard he hcmem hckey htarget hunion hresult
        refine Or.inr ⟨fun j hj => ?_, hread ▸ readMod_le_seq hresp⟩
        -- whoever has a claim has put the key, so the guard could not have held
        have hjw : j ∈ sys.writers := by
          rcases hj with hj | hj
          · have hji : j ≠ i := by
              rintro rfl
              rw [hp] at hj
              cases hj
            exact h.wrote j hj (hm (by rw [hp]; rfl) j hji)
          · exact hj
        exact readMod_ne_of_moved hk (h.moved j hjw) hresp hread
      · exact Or.inl (hwriter hc)
    · intro hc hpend
      rw [hproc] at hc hpend
      have hb : b = true := hc
      subst hb
      obtain ⟨p, hpm, hpk⟩ := (h.guards i req hp).put
      have : TxnProc.pending k (.running true req.success []) = true :=
        List.any_eq_true.2 ⟨.put p, hpm, by simpa using hpk⟩
      rw [show (if true then req.success else req.failure) = req.success from rfl, this] at hpend
      cases hpend
    · exact fun hi hno => absurd (hw ▸ hi) hno

theorem Inv.step_reply {sys : Server ι} (h : Inv k r sys) {i : ι} {b : Bool}
    {responses : List ResponseOp} (hp : sys.procs i = .running b [] responses) :
    Inv k r (sys.step k i) := by
  have hnow : (sys.procs i).writesNow k sys.store = false := by
    rw [hp]
    cases b <;> rfl
  have hw := step_writers_of_not hnow
  have hself := step_self (k := k) sys i
  rw [hp] at hself
  have hstore : (sys.step k i).store = sys.store := by
    simp only [step, hp, TxnProc.step]
  have hholds : ((sys.step k i).procs i).Holds → (sys.procs i).Holds := by
    rw [hself, hp]
    exact id
  refine h.step_of i (hstore ▸ .refl) ?_ ?_ ?_ ?_ ?_
  · rw [hself]
    rintro req ⟨⟩
  · rw [hself]
    rintro op ⟨⟩
  · rintro (hc | hc)
    · exact Or.inl (Or.inl (hholds hc))
    · exact Or.inl (Or.inr (hw ▸ hc))
  · intro hc _
    rw [hw]
    refine h.wrote i (hholds hc) ?_
    rw [hp]
    cases b <;> rfl
  · exact fun hi hno => absurd (hw ▸ hi) hno

theorem moved_of_writesNow {sys : Server ι} {i : ι} (hr : r ≤ sys.store.seq)
    (h : (sys.procs i).writesNow k sys.store = true) : Moved k r (sys.step k i).store := by
  simp only [step]
  generalize sys.procs i = p at h ⊢
  unfold TxnProc.writesNow at h
  split at h
  · rename_i p ops responses
    simp only [Bool.and_eq_true, decide_eq_true_eq] at h
    obtain ⟨rfl, hok⟩ := h
    rcases doPut_outcome sys.store p with ⟨⟨e, he⟩, -⟩ | ⟨⟨resp, hresp⟩, row, hk, hdel, hi⟩
    · rw [he] at hok
      cases hok
    · simp only [TxnProc.step, execOp]
      cases hd : doPut sys.store p with
      | mk res t' =>
        rw [hd] at hresp hi
        rw [show res = .ok resp from hresp]
        exact moved_inserted hi hk (fun _ => hdel) hr
  · cases h

theorem wrote_or_pending {sys : Server ι} (h : Inv k r sys) {i : ι} {op : RequestOp}
    {ops : List RequestOp} {responses responses' : List ResponseOp} {resp : ResponseOp}
    (hp : sys.procs i = .running true (op :: ops) responses)
    (hok : (execOp sys.store op).1 = .ok resp)
    (hpend : TxnProc.pending k (.running true ops responses') = false) :
    i ∈ (sys.step k i).writers := by
  by_cases hnow : (sys.procs i).writesNow k sys.store = true
  · simp [step, hnow]
  · rw [Bool.not_eq_true] at hnow
    rw [step_writers_of_not hnow]
    refine h.wrote i (by rw [hp]; rfl) ?_
    rw [hp] at hnow ⊢
    simp only [TxnProc.pending, List.any_cons, Bool.or_eq_false_iff] at hpend ⊢
    refine ⟨?_, hpend⟩
    cases op with
    | put p =>
      simp only [TxnProc.writesNow, Bool.and_eq_false_iff, decide_eq_false_iff_not] at hnow
      rcases hnow with hne | hfail
      · simpa using hne
      · simp only [execOp, Prod.map_fst] at hok
        cases hd : (doPut sys.store p).1 with
        | error e =>
          rw [hd] at hok
          cases hok
        | ok x =>
          rw [hd] at hfail
          cases hfail
    | _ => rfl

theorem Inv.step_op {sys : Server ι} (h : Inv k r sys) {i : ι} {b : Bool} {op : RequestOp}
    {ops : List RequestOp} {responses : List ResponseOp}
    (hp : sys.procs i = .running b (op :: ops) responses) : Inv k r (sys.step k i) := by
  have hself := step_self (k := k) sys i
  rw [hp] at hself
  have hstore : (sys.step k i).store = (execOp sys.store op).2 := by
    simp only [step, hp, TxnProc.step]
    split <;> simp_all
  have hgrow : Grows (fun row => row.key = k → r = 0 → row.deleted = false) sys.store
      (sys.step k i).store := by
    rw [hstore]
    refine execOp_grows _ fun h0 => h.keeps h0 i op ?_
    rw [hp]
    exact List.mem_cons_self
  -- only a transaction that has passed its guard puts the key
  have hclaimed : (sys.procs i).writesNow k sys.store = true → sys.Claims i := by
    rw [hp]
    intro hnow
    cases b with
    | true => exact Or.inl (by rw [hp]; rfl)
    | false => cases hnow
  have hwriters : i ∈ (sys.step k i).writers → sys.Claims i := by
    intro hi
    by_cases hnow : (sys.procs i).writesNow k sys.store = true
    · exact hclaimed hnow
    · rw [step_writers_of_not (by simpa using hnow)] at hi
      exact Or.inr hi
  have hmoved : i ∈ (sys.step k i).writers → i ∉ sys.writers → Moved k r (sys.step k i).store := by
    intro hi hno
    by_cases hnow : (sys.procs i).writesNow k sys.store = true
    · exact moved_of_writesNow (h.bound i (hclaimed hnow)) hnow
    · rw [step_writers_of_not (by simpa using hnow)] at hi
      exact absurd hi hno
  cases he : (execOp sys.store op).1 with
  | error e =>
    have hproc : (sys.step k i).procs i = .done (.error e) := by
      rw [hself]
      simp only [TxnProc.step]
      split <;> simp_all
    refine h.step_of i hgrow ?_ ?_ ?_ ?_ hmoved
    · rw [hproc]
      rintro req ⟨⟩
    · rw [hproc]
      rintro op ⟨⟩
    · rintro (hc | hc)
      · rw [hproc] at hc
        cases hc
      · exact Or.inl (hwriters hc)
    · intro hc
      rw [hproc] at hc
      cases hc
  | ok resp =>
    have hproc : (sys.step k i).procs i = .running b ops (responses ++ [resp]) := by
      rw [hself]
      simp only [TxnProc.step]
      split <;> simp_all
    refine h.step_of i hgrow ?_ ?_ ?_ ?_ hmoved
    · rw [hproc]
      rintro req ⟨⟩
    · rw [hproc, hp]
      exact fun _ hop => List.mem_cons_of_mem _ hop
    · rintro (hc | hc)
      · rw [hproc] at hc
        exact Or.inl (Or.inl (by rw [hp]; exact hc))
      · exact Or.inl (hwriters hc)
    · intro hc hpend
      rw [hproc] at hc hpend
      have hb : b = true := hc
      subst hb
      exact wrote_or_pending h hp he hpend

theorem Inv.step {sys : Server ι} (h : Inv k r sys) (hk : k ≠ Bytes.ofString compactRevKey)
    (i : ι) (hm : MayStep k sys i) : Inv k r (sys.step k i) := by
  cases hp : sys.procs i with
  | ready req => exact h.step_ready hk hp hm
  | running b ops responses =>
    cases ops with
    | nil => exact h.step_reply hp
    | cons op ops => exact h.step_op hp
  | done result =>
    have hsame : sys.step k i = sys := by
      have hproc : Function.update sys.procs i (sys.procs i) = sys.procs :=
        Function.update_eq_self _ _
      rw [hp] at hproc
      simp [Server.step, hp, TxnProc.step, TxnProc.writesNow, hproc]
    rw [hsame]
    exact h

theorem Inv.run {sys : Server ι} (h : Inv k r sys) (hk : k ≠ Bytes.ofString compactRevKey)
    {schedule : List ι} (hs : Serial k sys schedule) : Inv k r (sys.run k schedule) := by
  induction schedule generalizing sys with
  | nil => exact h
  | cons i schedule ih => exact ih (h.step hk i hs.1) hs.2

end Server

/-- Any number of transactions guard `k` with mod revision `r` and put `k`.  In every schedule that
evaluates no guard while another transaction stands between its guard and its put, at most one of
them reports success, at most one of them writes `k` in its success branch, and who reports success
has written.  The key must not be the sentinel's, which reads as missing whatever is put; and where
`r` stands for a missing key, no request may delete the key again. -/
theorem txn_guard_exclusive {ι : Type} [DecidableEq ι] (t : SqliteStore) (reqs : ι → TxnRequest)
    (k : Bytes) (r : Int) (hg : ∀ i, (reqs i).Guards k r)
    (hk : k ≠ Bytes.ofString compactRevKey)
    (hd : r = 0 → ∀ i, ∀ op ∈ (reqs i).success ++ (reqs i).failure, op.deletes k = false)
    (schedule : List ι) (hs : Server.Serial k (Server.start t reqs) schedule) :
    (∀ i j, (((Server.start t reqs).run k schedule).procs i).Reported →
      (((Server.start t reqs).run k schedule).procs j).Reported → i = j) ∧
    (∀ i ∈ ((Server.start t reqs).run k schedule).writers,
      ∀ j ∈ ((Server.start t reqs).run k schedule).writers, i = j) ∧
    ∀ i, (((Server.start t reqs).run k schedule).procs i).Reported →
      i ∈ ((Server.start t reqs).run k schedule).writers := by
  have hinv := (Server.inv_start hg hd (t := t)).run hk hs
  refine ⟨fun i j hi hj => ?_, fun i hi j hj => ?_, fun i hi => ?_⟩
  · exact hinv.one i j (Or.inl hi.holds) (Or.inl hj.holds)
  · exact hinv.one i j (Or.inr hi) (Or.inr hj)
  · refine hinv.wrote i hi.holds ?_
    obtain ⟨res, hres, -⟩ := hi
    rw [hres]
    rfl

/-- A request that creates the key `a` if it is missing. -/
def createIfMissing (value : Bytes) : TxnRequest where
  compare := [{ result := 0, target := 2, key := [97], targetUnion := some (.modRevision 0) }]
  success := [.put { key := [97], value }]

theorem createIfMissing_guards (value : Bytes) : (createIfMissing value).Guards [97] 0 :=
  ⟨⟨_, List.mem_singleton.2 rfl, rfl, rfl, rfl, rfl⟩, _, List.mem_singleton.2 rfl, rfl⟩

/-- Two clients create one key, one after the other. -/
theorem txn_guard_exclusive_serial :
    (((Server.start .openInMemory fun i => createIfMissing [if i then 1 else 2]).run [97]
      [false, false, false, true, true, true]).procs false).Reported ∧
    ¬ (((Server.start .openInMemory fun i => createIfMissing [if i then 1 else 2]).run [97]
      [false, false, false, true, true, true]).procs true).Reported := by
  have hone := (txn_guard_exclusive .openInMemory
    (fun i : Bool => createIfMissing [if i then 1 else 2]) [97] 0
    (fun _ => createIfMissing_guards _) (by decide) (by decide)
    [false, false, false, true, true, true]
    ⟨fun _ => by decide, fun _ => by decide, fun _ => by decide, fun _ => by decide,
      fun _ => by decide, fun _ => by decide, trivial⟩).1
  have hfirst : (((Server.start .openInMemory fun i => createIfMissing [if i then 1 else 2]).run
      [97] [false, false, false, true, true, true]).procs false).Reported :=
    ⟨_, rfl, by decide⟩
  exact ⟨hfirst, fun hsecond => Bool.false_ne_true (hone false true hfirst hsecond)⟩

/-- Both clients evaluate their guards before either writes: both report success, and the second
write replaces the first. -/
theorem txn_guard_both_succeed :
    ∃ a b : TxnResponse,
      ((Server.start .openInMemory fun i => createIfMissing [if i then 1 else 2]).run [97]
        [false, true, false, true, false, true]).procs false = .done (.ok a) ∧
      ((Server.start .openInMemory fun i => createIfMissing [if i then 1 else 2]).run [97]
        [false, true, false, true, false, true]).procs true = .done (.ok b) ∧
      a.succeeded = true ∧ b.succeeded = true ∧
      ((Server.start .openInMemory fun i => createIfMissing [if i then 1 else 2]).run [97]
        [false, true, false, true, false, true]).writers = [false, true] := by
  refine ⟨⟨{ revision := 2 }, true, [.put ⟨{ revision := 1 }, none⟩]⟩,
    ⟨{ revision := 2 }, true, [.put ⟨{ revision := 2 }, none⟩]⟩, ?_⟩
  decide

end CaveHome.Kine.Etcd
