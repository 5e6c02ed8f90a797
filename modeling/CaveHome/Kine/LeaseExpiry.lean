import CaveHome.Kine.Invariant
import Mathlib.Algebra.GroupWithZero.Nat

/-!
# Lease expiry

One call of `expire` deletes the keys of all leases that have run out.  A sequence of tombstones
hides exactly the keys it names (`Store.Writes.getLive_eq`), one lease appends a tombstone for each
of its keys (`revokeKeys_spec`), and the loop does so for one lease after the other.
-/

namespace CaveHome.Kine

/-! ## Reachable lease tables -/

/-- One call that changes a lease table. -/
inductive LeaseOp
  | grant (id ttlSeconds now : Int)
  | revoke (id : Int)
  | expire (store : Store) (now : Int)

namespace LeaseOp

def run (t : LeaseTable) : LeaseOp → LeaseTable
  | .grant id ttlSeconds now => (t.grant id ttlSeconds now).2
  | .revoke id => (t.revoke id).2
  | .expire store now => (t.expire store now).2.1

/-- The table after a sequence of calls. -/
def runAll (t : LeaseTable) (ops : List LeaseOp) : LeaseTable := ops.foldl run t

end LeaseOp

namespace LeaseTable

/-- Leases are kept under their id, which is not the id that stands for no lease. -/
def Keyed (t : LeaseTable) : Prop :=
  ∀ (id : Int) (l : Lease), t.leases[id]? = some l → l.id = id ∧ id ≠ 0

/-- A lease of the table has run out. -/
def HasExpired (t : LeaseTable) (now id : Int) : Prop :=
  ∃ l ∈ t.leases[id]?, now ≥ I64.saturatingAdd l.grantedAt l.ttlSeconds

instance (t : LeaseTable) (now id : Int) : Decidable (t.HasExpired now id) := by
  unfold HasExpired
  infer_instance

theorem erase_lookup (t : LeaseTable) (id k : Int) :
    (t.leases.erase id)[k]? = if id = k then none else t.leases[k]? := by
  rw [Std.TreeMap.getElem?_erase]
  simp only [compare_eq_iff_eq]

theorem Keyed.erase {t : LeaseTable} (h : t.Keyed) (id : Int) :
    Keyed { leases := t.leases.erase id } := by
  intro k l hl
  rw [erase_lookup] at hl
  split_ifs at hl
  exact h k l hl

theorem expireIds_lookup (ids : List Int) (t : LeaseTable) (s : Store) (report : List (Int × Nat))
    (k : Int) :
    (expireIds ids t s report).2.1.leases[k]? = if k ∈ ids then none else t.leases[k]? := by
  induction ids generalizing t s report with
  | nil => simp [expireIds]
  | cons id ids ih =>
    rw [expireIds]
    dsimp only
    rw [ih, erase_lookup]
    by_cases hk : id = k
    · simp [hk]
    · simp [hk, Ne.symm hk]

theorem keyed_run {t : LeaseTable} (h : t.Keyed) (ops : List LeaseOp) :
    (LeaseOp.runAll t ops).Keyed := by
  induction ops generalizing t with
  | nil => exact h
  | cons op ops ih =>
    refine ih ?_
    cases op with
    | grant id ttlSeconds now =>
      show (t.grant id ttlSeconds now).2.Keyed
      unfold grant
      split_ifs with h1 h2
      · exact h
      · exact h
      · intro k l hl
        dsimp only at hl
        rw [Std.TreeMap.getElem?_insert] at hl
        simp only [compare_eq_iff_eq] at hl
        split_ifs at hl with hk
        · obtain rfl := Option.some.inj hl
          exact ⟨hk, fun h0 => h1 (hk.trans h0)⟩
        · exact h k l hl
    | revoke id => exact h.erase id
    | expire store now =>
      intro k l hl
      have hlook := expireIds_lookup (t.expired now) t store [] k
      have hl' : (t.expire store now).2.1.leases[k]? = some l := hl
      unfold expire at hl'
      rw [hlook] at hl'
      split_ifs at hl'
      exact h k l hl'

theorem keyed_new : Keyed {} := by
  intro id l h
  simp at h

theorem expired_spec {t : LeaseTable} (h : t.Keyed) (now : Int) :
    (t.expired now).Nodup ∧ ∀ id, id ∈ t.expired now ↔ t.HasExpired now id := by
  have hvalues : t.leases.values = t.leases.toList.map Prod.snd := by
    have hfold : t.leases.values = t.leases.foldr (fun _ b l => b :: l) [] := rfl
    rw [hfold, Std.TreeMap.foldr_eq_foldr_toList]
    induction t.leases.toList with
    | nil => rfl
    | cons a l ih => simp [ih]
  have hmem : ∀ e ∈ t.leases.toList, t.leases[e.1]? = some e.2 := fun e he =>
    Std.TreeMap.mem_toList_iff_getElem?_eq_some.1 he
  have hids : t.expired now =
      (t.leases.toList.filter fun e => e.2.isExpired now).map Prod.fst := by
    unfold expired
    rw [hvalues, List.filter_map, List.map_map]
    refine List.map_congr_left fun e he => ?_
    exact (h e.1 e.2 (hmem e (List.mem_of_mem_filter he))).1
  rw [hids]
  constructor
  · rw [List.nodup_iff_pairwise_ne, List.pairwise_map]
    refine (Std.TreeMap.distinct_keys_toList.filter _).imp fun hne heq => hne ?_
    rw [compare_eq_iff_eq]
    exact heq
  · intro id
    unfold HasExpired
    simp only [List.mem_map, List.mem_filter]
    constructor
    · rintro ⟨e, ⟨he, hexp⟩, rfl⟩
      exact ⟨e.2, hmem e he, of_decide_eq_true hexp⟩
    · rintro ⟨l, hl, hexp⟩
      exact ⟨(id, l), ⟨Std.TreeMap.mem_toList_iff_getElem?_eq_some.2 hl, decide_eq_true hexp⟩, rfl⟩

end LeaseTable

/-! ## Tombstones -/

namespace Store

theorem Writes.getLive_eq {s s' : Store} {rows : List Row} (h : s.Writes rows s')
    (hdel : ∀ r ∈ rows, r.deleted = true) (k : Bytes) :
    s'.getLive k = if k ∈ rows.map Row.key then none else s.getLive k := by
  induction h with
  | nil => simp
  | snoc hw ha ih =>
    rename_i rows t u row
    have hrow : row.deleted = true := hdel row (by simp)
    rw [ha.getLive_eq, ih fun r hr => hdel r (List.mem_append_left _ hr), hrow]
    by_cases hk : row.key = k
    · simp [hk]
    · simp [hk, Ne.symm hk]

/-- `s'` is `s` with one tombstone for each of the keys. -/
def Buries (s : Store) (keys : List Bytes) (s' : Store) : Prop :=
  ∃ rows, s.Writes rows s' ∧ (∀ r ∈ rows, r.deleted = true) ∧ rows.map Row.key = keys

theorem Buries.nil (s : Store) : s.Buries [] s := ⟨[], .nil, by simp, rfl⟩

theorem Buries.trans {s t u : Store} {ks ks' : List Bytes} (h : s.Buries ks t)
    (h' : t.Buries ks' u) : s.Buries (ks ++ ks') u := by
  obtain ⟨rows, hw, hd, rfl⟩ := h
  obtain ⟨rows', hw', hd', rfl⟩ := h'
  refine ⟨rows ++ rows', hw.trans hw', fun r hr => ?_, by simp⟩
  exact (List.mem_append.1 hr).elim (hd r) (hd' r)

theorem Buries.getLive_eq {s s' : Store} {ks : List Bytes} (h : s.Buries ks s') (k : Bytes) :
    s'.getLive k = if k ∈ ks then none else s.getLive k := by
  obtain ⟨rows, hw, hd, rfl⟩ := h
  exact hw.getLive_eq hd k

theorem Buries.wf {s s' : Store} {ks : List Bytes} (h : s.Buries ks s') (hs : s.Wf) : s'.Wf := by
  obtain ⟨rows, hw, -, -⟩ := h
  exact hs.writes hw

theorem Buries.current_eq {s s' : Store} {ks : List Bytes} (h : s.Buries ks s') (hs : s.Wf) :
    s'.currentRevision = min (s.currentRevision + ks.length) I64.maxValue := by
  obtain ⟨rows, hw, -, rfl⟩ := h
  rw [hw.current_eq_min hs, List.length_map]

theorem Wf.ne_nil_of_live {s : Store} (hs : s.Wf) {k : Bytes} (h : (s.getLive k).isSome = true) :
    k ≠ [] := by
  obtain ⟨r, hr⟩ := Option.isSome_iff_exists.1 h
  have hkey : r.key = k := VersionedLog.last_key (getLive_eq_some_iff.1 hr).1
  exact hkey ▸ hs.key_ne_nil r (Wf.getLive_mem hr)

end Store

theorem deleteKeys_spec {s : Store} (hs : s.Wf) {keys : List Bytes} (hn : keys.Nodup)
    (hlive : ∀ k ∈ keys, (s.getLive k).isSome = true) (deleted : Nat) :
    (deleteKeys keys deleted s).1 = deleted + keys.length ∧
      s.Buries keys (deleteKeys keys deleted s).2 := by
  induction keys generalizing s deleted with
  | nil => exact ⟨rfl, .nil s⟩
  | cons k keys ih =>
    obtain ⟨hk, hn⟩ := List.nodup_cons.1 hn
    have hkl := hlive k List.mem_cons_self
    obtain ⟨hok, row, hkey, hdel, ha⟩ := Store.delete_appends (hs.ne_nil_of_live hkl) hkl
    have hone : s.Buries [k] (s.delete k).2 :=
      ⟨[row], .single ha, by simpa using hdel, by simp [hkey]⟩
    have hrest : ∀ x ∈ keys, ((s.delete k).2.getLive x).isSome = true := by
      intro x hx
      have hne : x ∉ [k] := by
        rw [List.mem_singleton]
        rintro rfl
        exact hk hx
      rw [hone.getLive_eq, if_neg hne]
      exact hlive x (List.mem_cons_of_mem _ hx)
    obtain ⟨hcount, hbury⟩ := ih (hone.wf hs) hn hrest (deleted + 1)
    have hstep : deleteKeys (k :: keys) deleted s =
        deleteKeys keys (deleted + 1) (s.delete k).2 := by
      rw [deleteKeys]
      cases hd : s.delete k with
      | mk res s' =>
        rw [hd] at hok
        simp only at hok
        subst hok
        rfl
    rw [hstep, hcount]
    refine ⟨by rw [List.length_cons]; omega, ?_⟩
    exact hone.trans hbury

/-- The key has a live row that carries the lease. -/
def Store.Owned (s : Store) (id : Int) (k : Bytes) : Prop := ∃ r ∈ s.getLive k, r.lease = id

theorem revokeKeys_spec {s : Store} (hs : s.Wf) {id : Int} (hid : id ≠ 0) :
    ∃ keys : List Bytes, keys.Nodup ∧ (∀ k, k ∈ keys ↔ s.Owned id k) ∧
      (revokeKeys s id).1 = keys.length ∧ s.Buries keys (revokeKeys s id).2 := by
  have hmem : ∀ k, k ∈ (s.liveKeys.filter fun k =>
      (s.getLive k).any fun r => decide (r.lease = id)) ↔ s.Owned id k := by
    intro k
    rw [List.mem_filter, Store.mem_liveKeys]
    unfold Store.Owned
    cases s.getLive k <;> simp
  have hlive : ∀ k ∈ (s.liveKeys.filter fun k =>
      (s.getLive k).any fun r => decide (r.lease = id)), (s.getLive k).isSome = true :=
    fun k hk => Store.mem_liveKeys.1 (List.mem_of_mem_filter hk)
  have hspec := deleteKeys_spec hs (s.liveKeys_nodup.filter _) hlive 0
  refine ⟨_, s.liveKeys_nodup.filter _, hmem, ?_, ?_⟩
  · unfold revokeKeys
    rw [if_neg hid]
    simpa using hspec.1
  · unfold revokeKeys
    rw [if_neg hid]
    exact hspec.2

theorem expireIds_spec {s : Store} (hs : s.Wf) {ids : List Int} (hn : ids.Nodup)
    (hid : ∀ id ∈ ids, id ≠ 0) (t : LeaseTable) (report : List (Int × Nat)) :
    ∃ keys : List Bytes, keys.Nodup ∧ (∀ k, k ∈ keys ↔ ∃ id ∈ ids, s.Owned id k) ∧
      ((LeaseTable.expireIds ids t s report).1.map Prod.snd).sum =
        (report.map Prod.snd).sum + keys.length ∧
      s.Buries keys (LeaseTable.expireIds ids t s report).2.2 := by
  induction ids generalizing s t report with
  | nil => exact ⟨[], List.nodup_nil, by simp, by simp [LeaseTable.expireIds], .nil s⟩
  | cons id ids ih =>
    obtain ⟨hfresh, hn⟩ := List.nodup_cons.1 hn
    obtain ⟨keys, hkn, hkm, hcount, hbury⟩ := revokeKeys_spec hs (hid id List.mem_cons_self)
    obtain ⟨rest, hrn, hrm, hsum, hrest⟩ := ih (hbury.wf hs) hn
      (fun x hx => hid x (List.mem_cons_of_mem _ hx)) { leases := t.leases.erase id }
      (report ++ [(id, (revokeKeys s id).1)])
    -- what is left for the other leases is what they owned at the start
    have hleft : ∀ k, k ∈ rest ↔ ∃ x ∈ ids, s.Owned x k := by
      intro k
      rw [hrm]
      refine exists_congr fun x => and_congr_right fun hx => ?_
      have hne : x ≠ id := fun he => hfresh (he ▸ hx)
      unfold Store.Owned
      rw [hbury.getLive_eq]
      split_ifs with hk
      · obtain ⟨r, hr, hl⟩ := (hkm k).1 hk
        have hr : s.getLive k = some r := hr
        simp [hr, hl, hne.symm]
      · exact Iff.rfl
    refine ⟨keys ++ rest, List.nodup_append.2 ⟨hkn, hrn, ?_⟩, fun k => ?_, ?_, ?_⟩
    · rintro k hk k' hk' rfl
      obtain ⟨r, hr, hl⟩ := (hkm k).1 hk
      obtain ⟨x, hx, r', hr', hl'⟩ := (hleft k).1 hk'
      obtain rfl := Option.mem_unique hr hr'
      exact hfresh (hl.symm.trans hl' ▸ hx)
    · rw [List.mem_append, hkm, hleft]
      simp
    · rw [LeaseTable.expireIds]
      dsimp only
      rw [hsum, hcount]
      simp
      omega
    · rw [LeaseTable.expireIds]
      exact hbury.trans hrest

/-! ## The effect of a call -/

/-- The live row of a key carries a lease that has run out. -/
def Doomed (t : LeaseTable) (s : Store) (now : Int) (k : Bytes) : Prop :=
  ∃ r ∈ s.getLive k, t.HasExpired now r.lease

instance (t : LeaseTable) (s : Store) (now : Int) (k : Bytes) : Decidable (Doomed t s now k) := by
  unfold Doomed
  infer_instance

/-- A report, a table and a store that expiring leases at `now` leads to. -/
structure Expires (t : LeaseTable) (s : Store) (now : Int) (report : List (Int × Nat))
    (t' : LeaseTable) (s' : Store) : Prop where
  leases : ∀ id : Int, t'.leases[id]? = if t.HasExpired now id then none else t.leases[id]?
  rows : ∃ tombstones, s'.rows = s.rows ++ tombstones ∧ (∀ r ∈ tombstones, r.deleted = true) ∧
    (∀ k, (tombstones.map Row.key).count k = if Doomed t s now k then 1 else 0) ∧
    (report.map Prod.snd).sum = tombstones.length
  live : ∀ k, s'.getLive k = if Doomed t s now k then none else s.getLive k
  revision : s'.currentRevision =
    min (s.currentRevision + (report.map Prod.snd).sum) I64.maxValue
  again : t'.expire s' now = ([], t', s')

theorem expires_of_keyed {t : LeaseTable} (ht : t.Keyed) {s : Store} (hs : s.Wf) (now : Int) :
    Expires t s now (t.expire s now).1 (t.expire s now).2.1 (t.expire s now).2.2 := by
  obtain ⟨hn, hmem⟩ := LeaseTable.expired_spec ht now
  have hid : ∀ id ∈ t.expired now, id ≠ 0 := by
    intro id h
    obtain ⟨l, hl, -⟩ := (hmem id).1 h
    exact (ht id l hl).2
  obtain ⟨keys, hkn, hkm, hsum, hbury⟩ := expireIds_spec hs hn hid t []
  rw [List.map_nil, List.sum_nil, Nat.zero_add] at hsum
  have hlook : ∀ id : Int, (t.expire s now).2.1.leases[id]? =
      if t.HasExpired now id then none else t.leases[id]? := by
    intro id
    unfold LeaseTable.expire
    rw [LeaseTable.expireIds_lookup]
    simp only [hmem]
  have hdoomed : ∀ k, k ∈ keys ↔ Doomed t s now k := by
    intro k
    rw [hkm]
    unfold Store.Owned Doomed
    constructor
    · rintro ⟨id, hexp, r, hr, rfl⟩
      exact ⟨r, hr, (hmem _).1 hexp⟩
    · rintro ⟨r, hr, hexp⟩
      exact ⟨r.lease, (hmem _).2 hexp, r, hr, rfl⟩
  refine ⟨hlook, ?_, fun k => ?_, ?_, ?_⟩
  · obtain ⟨rows, hw, hdel, hkeys⟩ := hbury
    refine ⟨rows, hw.rows_eq, hdel, fun k => ?_, ?_⟩
    · rw [hkeys, hkn.count]
      simp only [hdoomed]
    · rw [← List.length_map (f := Row.key), hkeys, ← hsum]
      rfl
  · simp only [← hdoomed]
    exact hbury.getLive_eq k
  · have hcur := hbury.current_eq hs
    unfold LeaseTable.expire
    rw [hsum]
    exact hcur
  · -- no lease that is left has run out
    have ht' : (t.expire s now).2.1.Keyed := by
      intro id l hl
      rw [hlook] at hl
      split_ifs at hl
      exact ht id l hl
    have hnone : (t.expire s now).2.1.expired now = [] := by
      rw [List.eq_nil_iff_forall_not_mem]
      intro id h
      obtain ⟨l, hl, hexp⟩ := ((LeaseTable.expired_spec ht' now).2 id).1 h
      have hl : (t.expire s now).2.1.leases[id]? = some l := hl
      rw [hlook] at hl
      split_ifs at hl with hno
      exact hno ⟨l, hl, hexp⟩
    generalize (t.expire s now).2 = r at hnone
    rw [LeaseTable.expire, hnone]
    rfl

/-- From every reachable table and store, `expire` removes the leases that have run out, appends one
tombstone for each live key that carries one of them, leaves the live rows of all other keys,
advances the revision by the keys it reports as far as the clock goes, and has nothing to do when
it is called again. -/
theorem expire_exact (calls : List LeaseOp) (ops : List StoreOp) (now : Int) :
    Expires (LeaseOp.runAll {} calls) (run .new ops) now
      ((LeaseOp.runAll {} calls).expire (run .new ops) now).1
      ((LeaseOp.runAll {} calls).expire (run .new ops) now).2.1
      ((LeaseOp.runAll {} calls).expire (run .new ops) now).2.2 :=
  expires_of_keyed (LeaseTable.keyed_run LeaseTable.keyed_new calls) (Store.wf_run ops) now

theorem run_puts (key : Bytes) (hk : key ≠ []) (lease : Int) (n : Nat) :
    (run .new (List.replicate n (.put key [] lease))).currentRevision = min (n : Int) I64.maxValue ∧
      (0 < n → (run .new (List.replicate n (.put key [] lease))).Owned lease key) := by
  have hmax : (0 : Int) ≤ I64.maxValue := by decide
  induction n with
  | zero => exact ⟨(min_eq_left hmax).symm, fun h => absurd h (lt_irrefl 0)⟩
  | succ n ih =>
    have hs := Store.wf_run (List.replicate n (.put key [] lease))
    have hrun : run .new (List.replicate (n + 1) (.put key [] lease)) =
        ((run .new (List.replicate n (.put key [] lease))).put key [] lease).2 := by
      rw [List.replicate_succ', run, List.foldl_append]
      rfl
    rw [hrun]
    generalize run .new (List.replicate n (.put key [] lease)) = s at hs ih
    obtain ⟨-, row, hkey, hdel, ha⟩ := Store.put_appends (s := s) hk [] lease
    have hput : (s.put key [] lease).2.rows = s.rows ++ [⟨key,
        ((s.getLive key).map Row.createRevision).getD s.clock.next.current, s.clock.next.current,
        [], lease, false⟩] := by
      unfold Store.put
      rw [if_neg (by simpa using hk)]
      rfl
    have hrow := List.append_cancel_left (ha.rows.symm.trans hput)
    refine ⟨?_, fun _ => ⟨row, ?_, ?_⟩⟩
    · rw [ha.current_eq hs, ih.1]
      split_ifs <;> omega
    · rw [ha.getLive_eq, if_pos hkey, hdel]
      rfl
    · rw [(List.cons.inj hrow).1]

/-- At the end of the clock a lease expires without the revision advancing. -/
theorem expire_saturated : ¬ ∀ (calls : List LeaseOp) (ops : List StoreOp) (now : Int),
    ((LeaseOp.runAll {} calls).expire (run .new ops) now).2.2.currentRevision =
      (run .new ops).currentRevision +
        (((LeaseOp.runAll {} calls).expire (run .new ops) now).1.map Prod.snd).sum := by
  intro h
  let calls : List LeaseOp := [.grant 5 1 0]
  let ops : List StoreOp := List.replicate 9223372036854775807 (.put [107] [] 5)
  obtain ⟨hcur, howned⟩ := run_puts [107] (by decide) 5 9223372036854775807
  have hsum := h calls ops 1
  have hexp := expires_of_keyed (LeaseTable.keyed_run LeaseTable.keyed_new calls)
    (Store.wf_run ops) 1
  have hmax : (run .new ops).currentRevision = I64.maxValue := hcur
  obtain ⟨r, hr, hlease⟩ := howned (by decide)
  have hdoomed : Doomed (LeaseOp.runAll {} calls) (run .new ops) 1 [107] := by
    refine ⟨r, hr, ?_⟩
    rw [hlease]
    decide
  -- one key is reported, while the revision stays at the largest one
  obtain ⟨tombstones, -, -, hcount, hlen⟩ := hexp.rows
  have hone : (tombstones.map Row.key).count [107] = 1 := (hcount [107]).trans (if_pos hdoomed)
  have hpos := List.count_le_length (a := [107]) (l := tombstones.map Row.key)
  rw [hone, List.length_map, ← hlen] at hpos
  have hcur' := hexp.revision
  rw [hsum, hmax] at hcur'
  omega

end CaveHome.Kine
