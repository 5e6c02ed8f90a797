import CaveHome.Dns.Zone

/-!
# Lookups and the tree of names

A lookup gives the reply that the tree prescribes exactly when the names it looks up are plain and
no start of authority is dropped at the end of a chain of aliases.
-/

namespace CaveHome.Dns.Zone

variable {z : Zone} {qtype : RecordType}

/-- The origin `z.` -/
def demoOrigin : Name := ⟨[[0x7A]], by decide, by decide⟩

/-- The name `b.z.`, which has no records. -/
def demoBetween : Name := ⟨[[0x62], [0x7A]], by decide, by decide⟩

/-- The name `a.b.z.` -/
def demoOwner : Name := ⟨[[0x61], [0x62], [0x7A]], by decide, by decide⟩

/-- A zone with a start of authority and the address of `a.b.z.` -/
def demoZone : Zone :=
  ((Zone.new demoOrigin).addRecord
    ⟨demoOrigin, .internet, 3600, .soa demoOrigin demoOrigin 1 7200 3600 1209600 300⟩).addRecord
    ⟨demoOwner, .internet, 3600, .a ⟨[192, 0, 2, 10], rfl⟩⟩

/-! ## The two lookups case by case -/

section

variable {left : Nat} {n : Name}

theorem lookupInZone_notOwner (qtype : RecordType) (left : Nat) (hd : z.delegation n = none)
    (ho : z.isOwner n = false) :
    z.lookupInZone qtype left n = match z.nearestWildcard n with
      | none => z.negative .nxDomain
      | some wc => z.wildcardReply qtype n wc := by
  unfold lookupInZone
  rw [hd, ho, wildcard_eq]
  cases z.nearestWildcard n <;> rfl

theorem treeRecords_owner (ho : z.isOwner n = true) :
    z.treeRecords n = some ((z.records n).getD []) := by
  unfold treeRecords
  rw [if_pos ho]
  obtain ⟨rrs, hrrs⟩ := Option.isSome_iff_exists.mp ho
  rw [hrrs]
  rfl

theorem lookups_matched (hd : z.delegation n = none) (ho : z.isOwner n = true)
    (hm : z.matching n qtype ≠ []) :
    z.lookupInZone qtype left n = answer (z.matching n qtype) ∧
      z.treeLookup qtype left n = (.data, answer (z.matching n qtype)) := by
  have hempty : (z.matching n qtype).isEmpty = false := by simpa using hm
  constructor
  · unfold lookupInZone
    simp only [hd, ho, hempty, if_true, Bool.not_false]
  · have hempty' := hempty
    unfold matching at hempty'
    unfold treeLookup
    simp only [hd, treeRecords_owner ho, hempty', Bool.not_false, if_true]
    rfl

example : (demoZone.lookupInZone .a 8 demoOwner).answers.map ResourceRecord.ttl = [3600] := by
  decide

theorem lookups_noData (hd : z.delegation n = none) (ho : z.isOwner n = true)
    (hm : z.matching n qtype = []) (hc : qtype = .cname ∨ z.cnameAt n = none) :
    z.lookupInZone qtype left n = z.negative .noError ∧
      z.treeLookup qtype left n = (.missing, z.negative .noError) := by
  have hempty : (z.matching n qtype).isEmpty = true := by simpa using hm
  have hcname : (if qtype = .cname then none else z.cnameAt n) = none := by
    rcases hc with hc | hc
    · rw [if_pos hc]
    · rw [hc, ite_self]
  constructor
  · unfold lookupInZone
    simp only [hd, ho, hempty, hcname, if_true, Bool.not_true, Bool.false_eq_true, if_false]
  · unfold matching at hempty
    unfold cnameAt at hcname
    unfold treeLookup
    simp only [hd, treeRecords_owner ho, hempty, hcname, Bool.not_true, Bool.false_eq_true,
      if_false]

section

variable {t : Name} (hd : z.delegation n = none) (ho : z.isOwner n = true)
  (hm : z.matching n qtype = []) (hq : qtype ≠ .cname) (ht : z.cnameAt n = some t)

include hd ho hm hq ht

theorem lookups_cut (hcut : left = 0 ∨ t.isSubdomainOf z.origin = false) :
    z.lookupInZone qtype left n = answer [z.cnameRecord n t] ∧
      z.treeLookup qtype left n = (.elsewhere, answer [z.cnameRecord n t]) := by
  have hempty : (z.matching n qtype).isEmpty = true := by simpa using hm
  constructor
  · unfold lookupInZone
    simp only [hd, ho, hempty, hq, ht, if_true, Bool.not_true, Bool.false_eq_true, if_false]
    cases left with
    | zero => rfl
    | succ left =>
      simp only [hcut.resolve_left (Nat.succ_ne_zero left), Bool.false_eq_true, if_false]
  · unfold matching at hempty
    unfold cnameAt at ht
    unfold treeLookup
    simp only [hd, treeRecords_owner ho, hempty, hq, ht, Bool.not_true, Bool.false_eq_true,
      if_false]
    cases left with
    | zero => rfl
    | succ left =>
      simp only [hcut.resolve_left (Nat.succ_ne_zero left), Bool.false_eq_true, if_false]
      rfl

theorem lookups_follow (left : Nat) (hin : t.isSubdomainOf z.origin = true) :
    z.lookupInZone qtype (left + 1) n =
        { rcode := (z.lookupInZone qtype left t).rcode
          aa := true
          answers := z.cnameRecord n t :: (z.lookupInZone qtype left t).answers
          authority :=
            if (z.lookupInZone qtype left t).rcode = .noError then []
            else (z.lookupInZone qtype left t).authority
          additional := [] } ∧
      z.treeLookup qtype (left + 1) n =
        ((z.treeLookup qtype left t).1,
          { rcode := (z.treeLookup qtype left t).2.rcode
            aa := true
            answers := z.cnameRecord n t :: (z.treeLookup qtype left t).2.answers
            authority :=
              if (z.treeLookup qtype left t).1 = .missing then z.soaAuthority else []
            additional := [] }) := by
  have hempty : (z.matching n qtype).isEmpty = true := by simpa using hm
  constructor
  · rw [lookupInZone]
    simp only [hd, ho, hempty, hq, ht, hin, if_true, Bool.not_true, Bool.false_eq_true, if_false]
  · unfold matching at hempty
    unfold cnameAt at ht
    rw [treeLookup]
    simp only [hd, treeRecords_owner ho, hempty, hq, ht, hin, if_true, Bool.not_true,
      Bool.false_eq_true, if_false]
    rfl

end

theorem treeLookup_empty (qtype : RecordType) (left : Nat) (hd : z.delegation n = none)
    (ho : z.isOwner n = false) (hin : z.inTree n = true) :
    z.treeLookup qtype left n = (.missing, z.negative .noError) := by
  unfold treeLookup treeRecords
  simp [hd, ho, hin]

theorem treeLookup_none (hd : z.delegation n = none) (ho : z.isOwner n = false)
    (hin : z.inTree n = false) (hw : z.enclosingWildcard n = none) :
    z.treeLookup qtype left n = (.missing, z.negative .nxDomain) := by
  unfold treeLookup treeRecords
  simp [hd, ho, hin, hw]

theorem treeLookup_wildcard (qtype : RecordType) (left : Nat) {wc : Name}
    (hd : z.delegation n = none) (ho : z.isOwner n = false) (hin : z.inTree n = false)
    (hw : z.enclosingWildcard n = some wc) :
    (z.matching wc qtype ≠ [] ∧ z.treeLookup qtype left n = (.data, z.wildcardReply qtype n wc)) ∨
    (z.matching wc qtype = [] ∧ (qtype = .cname ∨ z.cnameAt wc = none) ∧
      z.treeLookup qtype left n = (.missing, z.wildcardReply qtype n wc)) ∨
    z.matching wc qtype = [] ∧ qtype ≠ .cname ∧ z.cnameAt wc ≠ none ∧
      (z.treeLookup qtype left n).2.answers ≠ [] := by
  obtain ⟨c, -, hc⟩ := Option.bind_eq_some_iff.mp hw
  obtain ⟨rrs, hrrs⟩ := Option.isSome_iff_exists.mp (isOwner_of_ownedWildcard hc).2
  have htree : z.treeRecords n = some (rrs.map fun rr => { rr with name := n }) := by
    unfold treeRecords
    simp [ho, hin, hw, hrrs]
  have hmatching : z.matching wc qtype = rrs.filter fun r => qtype = .any || r.rtype = qtype := by
    unfold matching
    rw [hrrs]
    rfl
  have hfilter : (rrs.map fun rr => { rr with name := n }).filter
      (fun r => qtype = .any || r.rtype = qtype) =
      (z.matching wc qtype).map fun rr => { rr with name := n } := by
    rw [hmatching, List.filter_map]
    rfl
  have hcname : ((rrs.map fun rr => { rr with name := n }).findSome? fun r => r.rdata.cname?) =
      z.cnameAt wc := by
    unfold cnameAt
    rw [hrrs, List.findSome?_map]
    rfl
  unfold treeLookup wildcardReply
  simp only [hd, htree, hfilter, hcname]
  cases hm : z.matching wc qtype with
  | cons rr rest => exact Or.inl ⟨List.cons_ne_nil _ _, rfl⟩
  | nil =>
    right
    by_cases hc : qtype = .cname ∨ z.cnameAt wc = none
    · refine Or.inl ⟨rfl, hc, ?_⟩
      have hnone : (if qtype = .cname then none else z.cnameAt wc) = none := by
        rcases hc with hc | hc
        · rw [if_pos hc]
        · rw [hc, ite_self]
      simp [hnone]
    · obtain ⟨hq, hne⟩ := not_or.mp hc
      obtain ⟨t, ht⟩ := Option.ne_none_iff_exists'.mp hne
      refine Or.inr ⟨rfl, hq, hne, ?_⟩
      simp only [hq, ht, if_false, List.map_nil, List.isEmpty_nil, Bool.not_true,
        Bool.false_eq_true]
      cases left with
      | zero => exact List.cons_ne_nil _ _
      | succ left =>
        dsimp only
        split_ifs <;> simp [answer]

end

/-! ## Where the lookups agree -/

/-- How the reply of a lookup compares with the one that the tree prescribes. -/
structure Compared (z : Zone) (qtype : RecordType) (left : Nat) (n : Name) : Prop where
  core : (z.lookupInZone qtype left n).answers = (z.treeLookup qtype left n).2.answers ∧
    (z.lookupInZone qtype left n).rcode = (z.treeLookup qtype left n).2.rcode ↔
      z.AllPlain qtype left n
  rcode : (z.lookupInZone qtype left n).rcode = .noError ∨
    (z.lookupInZone qtype left n).rcode = .nxDomain ∧
      (z.lookupInZone qtype left n).authority = z.soaAuthority ∧
      ¬z.EndsEmpty qtype (z.chainEnd qtype left n)
  missing : z.AllPlain qtype left n → ((z.treeLookup qtype left n).1 = .missing ↔
    (z.lookupInZone qtype left n).rcode = .nxDomain ∨
      z.EndsEmpty qtype (z.chainEnd qtype left n))
  direct : left = 0 ∨ z.follows qtype n = none → z.AllPlain qtype left n →
    z.lookupInZone qtype left n = (z.treeLookup qtype left n).2

section

variable {left : Nat} {n t : Name}

theorem follows_eq_some_iff :
    z.follows qtype n = some t ↔ z.delegation n = none ∧ z.matching n qtype = [] ∧
      qtype ≠ .cname ∧ z.cnameAt n = some t ∧ t.isSubdomainOf z.origin = true := by
  unfold follows
  by_cases hd : z.delegation n = none
  · by_cases hm : z.matching n qtype = []
    · by_cases hq : qtype = .cname
      · simp [hd, hq]
      · simp [hd, hm, hq, Option.filter_eq_some_iff]
    · simp [hd, hm]
  · simp [hd]

theorem isOwner_of_cnameAt (h : z.cnameAt n = some t) : z.isOwner n = true := by
  cases ho : z.isOwner n with
  | true => rfl
  | false =>
    unfold isOwner at ho
    rw [Option.isSome_eq_false_iff, Option.isNone_iff_eq_none] at ho
    unfold cnameAt at h
    rw [ho] at h
    cases h

theorem chain_stop (h : left = 0 ∨ z.follows qtype n = none) :
    z.chain qtype left n = [n] ∧ z.chainEnd qtype left n = n := by
  cases left with
  | zero => exact ⟨rfl, rfl⟩
  | succ left =>
    have h := h.resolve_left (Nat.succ_ne_zero left)
    unfold chain chainEnd
    rw [h]
    exact ⟨rfl, rfl⟩

theorem allPlain_stop (h : left = 0 ∨ z.follows qtype n = none) :
    z.AllPlain qtype left n ↔ (z.delegation n = none → z.Plain qtype n) := by
  unfold AllPlain
  rw [(chain_stop h).1]
  simp

theorem allPlain_follow (h : z.follows qtype n = some t) :
    z.AllPlain qtype (left + 1) n ↔ z.AllPlain qtype left t := by
  have howner := isOwner_of_cnameAt (follows_eq_some_iff.mp h).2.2.2.1
  unfold AllPlain
  rw [chain, h]
  refine List.forall_mem_cons.trans (and_iff_right fun _ => Or.inl howner)

theorem compared_of_eq {e : Ending} {reply : ZoneReply}
    (hstop : left = 0 ∨ z.follows qtype n = none)
    (hplain : z.delegation n = none → z.Plain qtype n)
    (h : z.lookupInZone qtype left n = reply ∧ z.treeLookup qtype left n = (e, reply))
    (hcode : reply.rcode = .noError ∨
      reply.rcode = .nxDomain ∧ reply.authority = z.soaAuthority ∧ ¬z.EndsEmpty qtype n)
    (hmissing : e = .missing ↔ reply.rcode = .nxDomain ∨ z.EndsEmpty qtype n) :
    z.Compared qtype left n where
  core := by
    rw [h.1, h.2]
    exact iff_of_true ⟨rfl, rfl⟩ ((allPlain_stop hstop).mpr hplain)
  rcode := by rw [h.1, (chain_stop hstop).2]; exact hcode
  missing := fun _ => by rw [h.1, h.2, (chain_stop hstop).2]; exact hmissing
  direct := fun _ _ => by rw [h.1, h.2]

theorem compared_delegated {d : Name} (hd : z.delegation n = some d) :
    z.Compared qtype left n := by
  have hfollows : z.follows qtype n = none := by
    cases hf : z.follows qtype n with
    | none => rfl
    | some t => rw [(follows_eq_some_iff.mp hf).1] at hd; cases hd
  have hnone : ¬z.EndsEmpty qtype n := fun h => by rw [h.1] at hd; cases hd
  refine compared_of_eq (Or.inr hfollows) (fun h => by rw [h] at hd; cases hd)
    ⟨lookupInZone_delegated hd, treeLookup_delegated hd⟩ (Or.inl rfl) ?_
  exact iff_of_false (by decide) (not_or.mpr ⟨by simp [referral], hnone⟩)

theorem compared_owner (hd : z.delegation n = none) (ho : z.isOwner n = true)
    (hstop : left = 0 ∨ z.follows qtype n = none) : z.Compared qtype left n := by
  have hends : z.EndsEmpty qtype n ↔
      z.matching n qtype = [] ∧ (qtype = .cname ∨ z.cnameAt n = none) := by
    unfold EndsEmpty
    rw [if_pos ho]
    exact and_iff_right hd
  by_cases hm : z.matching n qtype = []
  · by_cases hc : qtype = .cname ∨ z.cnameAt n = none
    · exact compared_of_eq hstop (fun _ => Or.inl ho) (lookups_noData hd ho hm hc) (Or.inl rfl)
        (iff_of_true rfl (Or.inr (hends.mpr ⟨hm, hc⟩)))
    · obtain ⟨hq, hne⟩ := not_or.mp hc
      obtain ⟨t, ht⟩ := Option.ne_none_iff_exists'.mp hne
      have hcut : left = 0 ∨ t.isSubdomainOf z.origin = false := by
        refine hstop.imp_right fun hf => ?_
        cases hin : t.isSubdomainOf z.origin with
        | false => rfl
        | true => rw [follows_eq_some_iff.mpr ⟨hd, hm, hq, ht, hin⟩] at hf; cases hf
      refine compared_of_eq hstop (fun _ => Or.inl ho) (lookups_cut hd ho hm hq ht hcut)
        (Or.inl rfl) (iff_of_false (by decide) (not_or.mpr ⟨by simp [answer], ?_⟩))
      exact fun h => hc (hends.mp h).2
  · refine compared_of_eq hstop (fun _ => Or.inl ho) (lookups_matched hd ho hm) (Or.inl rfl)
      (iff_of_false (by decide) (not_or.mpr ⟨by simp [answer], fun h => hm (hends.mp h).1⟩))

theorem compared_of_ne (hd : z.delegation n = none) (hplain : ¬z.Plain qtype n)
    (hne : ¬((z.lookupInZone qtype left n).answers = (z.treeLookup qtype left n).2.answers ∧
      (z.lookupInZone qtype left n).rcode = (z.treeLookup qtype left n).2.rcode))
    (hcode : (z.lookupInZone qtype left n).rcode = .noError ∨
      (z.lookupInZone qtype left n).rcode = .nxDomain ∧
        (z.lookupInZone qtype left n).authority = z.soaAuthority ∧ ¬z.EndsEmpty qtype n)
    (hstop : left = 0 ∨ z.follows qtype n = none) : z.Compared qtype left n := by
  have hall : ¬z.AllPlain qtype left n := fun h => hplain ((allPlain_stop hstop).mp h hd)
  exact ⟨iff_of_false hne hall, by rwa [(chain_stop hstop).2], fun h => absurd h hall,
    fun _ h => absurd h hall⟩

theorem follows_notOwner (ho : z.isOwner n = false) : z.follows qtype n = none := by
  cases hf : z.follows qtype n with
  | none => rfl
  | some t => rw [isOwner_of_cnameAt (follows_eq_some_iff.mp hf).2.2.2.1] at ho; cases ho

theorem compared_notOwner (hd : z.delegation n = none) (ho : z.isOwner n = false) :
    z.Compared qtype left n := by
  have hstop : left = 0 ∨ z.follows qtype n = none := Or.inr (follows_notOwner ho)
  have hlookup := lookupInZone_notOwner qtype left hd ho
  have hends : z.EndsEmpty qtype n ↔
      ∃ wc, z.nearestWildcard n = some wc ∧ z.matching wc qtype = [] := by
    unfold EndsEmpty
    rw [ho, if_neg Bool.false_ne_true]
    exact and_iff_right hd
  have hplain : z.Plain qtype n ↔
      if z.inTree n then ∃ wc, z.nearestWildcard n = some wc ∧ z.matching wc qtype = []
      else ∀ wc, z.nearestWildcard n = some wc → z.enclosingWildcard n = some wc ∧
        (z.matching wc qtype ≠ [] ∨ qtype = .cname ∨ z.cnameAt wc = none) := by
    unfold Plain
    rw [ho]
    exact or_iff_right Bool.false_ne_true
  cases hin : z.inTree n with
  | true =>
    -- The name exists without records: it is met by luck only.
    rw [hin, if_pos rfl] at hplain
    have htree := treeLookup_empty qtype left hd ho hin
    cases hnear : z.nearestWildcard n with
    | none =>
      rw [hnear] at hlookup hplain hends
      refine compared_of_ne hd (fun h => by simpa using hplain.mp h) ?_ (Or.inr ?_) hstop
      · rw [hlookup, htree]
        exact fun h => absurd h.2 (by simp [negative])
      · rw [hlookup]
        exact ⟨rfl, rfl, fun h => by simpa using hends.mp h⟩
    | some wc =>
      rw [hnear] at hlookup
      by_cases hm : z.matching wc qtype = []
      · have hreply : z.wildcardReply qtype n wc = z.negative .noError := by
          simp [wildcardReply, hm]
        refine compared_of_eq hstop (fun _ => hplain.mpr ⟨wc, hnear, hm⟩)
          ⟨hlookup.trans hreply, htree⟩ (Or.inl rfl) ?_
        exact iff_of_true rfl (Or.inr (hends.mpr ⟨wc, hnear, hm⟩))
      · refine compared_of_ne hd (fun h => ?_) ?_ (Or.inl ?_) hstop
        · obtain ⟨wc', hnear', hm'⟩ := hplain.mp h
          rw [hnear] at hnear'
          exact hm (Option.some.inj hnear' ▸ hm')
        · rw [hlookup, htree]
          exact fun h => hm (by simpa [wildcardReply, hm, negative, answer] using h.1)
        · rw [hlookup]
          simp [wildcardReply, hm, answer]
  | false =>
    rw [hin, if_neg Bool.false_ne_true] at hplain
    cases hnear : z.nearestWildcard n with
    | none =>
      rw [hnear] at hlookup
      have henc : z.enclosingWildcard n = none := by
        cases he : z.enclosingWildcard n with
        | none => rfl
        | some wc => rw [nearestWildcard_of_enclosing he] at hnear; cases hnear
      have hnot : ¬z.EndsEmpty qtype n := fun h => by simpa [hnear] using hends.mp h
      refine compared_of_eq hstop (fun _ => hplain.mpr (by simp [hnear]))
        ⟨hlookup, treeLookup_none hd ho hin henc⟩ (Or.inr ⟨rfl, rfl, hnot⟩) ?_
      exact iff_of_true rfl (Or.inl rfl)
    | some wc =>
      rw [hnear] at hlookup
      have hcode : (z.wildcardReply qtype n wc).rcode = .noError := by
        unfold wildcardReply
        split <;> rfl
      have hends : z.EndsEmpty qtype n ↔ z.matching wc qtype = [] := by
        rw [hends, hnear]
        simp
      have hplain : z.Plain qtype n ↔ z.enclosingWildcard n = some wc ∧
          (z.matching wc qtype ≠ [] ∨ qtype = .cname ∨ z.cnameAt wc = none) := by
        rw [hplain, hnear]
        simp
      cases henc : z.enclosingWildcard n with
      | none =>
        refine compared_of_ne hd (fun h => ?_) ?_ (Or.inl ?_) hstop
        · rw [henc] at hplain
          cases (hplain.mp h).1
        · rw [hlookup, treeLookup_none hd ho hin henc]
          exact fun h => absurd (hcode.symm.trans h.2) (by simp [negative])
        · rw [hlookup, hcode]
      | some wc' =>
        have hsame : wc' = wc := by
          have h := nearestWildcard_of_enclosing henc
          rw [hnear] at h
          exact (Option.some.inj h).symm
        subst hsame
        rcases treeLookup_wildcard qtype left hd ho hin henc with
          ⟨hm, htree⟩ | ⟨hm, hc, htree⟩ | ⟨hm, hq, hne, hanswers⟩
        · refine compared_of_eq hstop (fun _ => hplain.mpr ⟨henc, Or.inl hm⟩) ⟨hlookup, htree⟩
            (Or.inl hcode) (iff_of_false (by decide) (not_or.mpr ⟨by simp [hcode], ?_⟩))
          exact fun h => hm (hends.mp h)
        · exact compared_of_eq hstop (fun _ => hplain.mpr ⟨henc, Or.inr hc⟩) ⟨hlookup, htree⟩
            (Or.inl hcode) (iff_of_true rfl (Or.inr (hends.mpr hm)))
        · refine compared_of_ne hd (fun h => ?_) ?_ (Or.inl ?_) hstop
          · exact (hplain.mp h).2.elim (fun h => h hm) fun h => h.elim hq hne
          · rw [hlookup]
            exact fun h => hanswers (h.1.symm.trans (by simp [wildcardReply, hm, negative]))
          · rw [hlookup, hcode]

theorem compared_follow (hf : z.follows qtype n = some t) (h : z.Compared qtype left t) :
    z.Compared qtype (left + 1) n := by
  obtain ⟨hd, hm, hq, ht, hin⟩ := follows_eq_some_iff.mp hf
  obtain ⟨hlookup, htree⟩ :=
    lookups_follow hd (isOwner_of_cnameAt ht) hm hq ht left hin
  have hend : z.chainEnd qtype (left + 1) n = z.chainEnd qtype left t := by
    rw [chainEnd, hf]
  refine ⟨?_, ?_, ?_, fun hstop => ?_⟩
  · rw [hlookup, htree, allPlain_follow hf, ← h.core]
    simp
  · rw [hlookup, hend]
    rcases h.rcode with hcode | ⟨hcode, hauth, hnot⟩
    · exact Or.inl hcode
    · refine Or.inr ⟨hcode, ?_, hnot⟩
      simp [hcode, hauth]
  · rw [hlookup, htree, hend, allPlain_follow hf]
    exact h.missing
  · rcases hstop with hstop | hstop
    · cases hstop
    · rw [hf] at hstop
      cases hstop

theorem compared (z : Zone) (qtype : RecordType) (left : Nat) (n : Name) :
    z.Compared qtype left n := by
  induction left generalizing n with
  | zero =>
    cases hd : z.delegation n with
    | some d => exact compared_delegated hd
    | none =>
      cases ho : z.isOwner n with
      | true => exact compared_owner hd ho (Or.inl rfl)
      | false => exact compared_notOwner hd ho
  | succ left ih =>
    cases hf : z.follows qtype n with
    | some t => exact compared_follow hf (ih t)
    | none =>
      cases hd : z.delegation n with
      | some d => exact compared_delegated hd
      | none =>
        cases ho : z.isOwner n with
        | true => exact compared_owner hd ho (Or.inr hf)
        | false => exact compared_notOwner hd ho

end

/-- The zone answers what the tree prescribes exactly when the lookup takes the names of the tree
and drops no start of authority. -/
theorem lookup_eq_treeLookup_iff {z : Zone} {qname : Name} (qtype : RecordType)
    (hin : qname.isSubdomainOf z.origin = true) :
    z.lookup qname qtype = some (z.treeLookup qtype 8 qname).2 ↔ z.Agrees qtype qname := by
  have hlookup : z.lookup qname qtype = some (z.lookupInZone qtype 8 qname) := by
    unfold lookup
    rw [hin]
    rfl
  have h := compared z qtype 8 qname
  rw [hlookup, Option.some.injEq, Agrees]
  constructor
  · intro heq
    have hall : z.AllPlain qtype 8 qname := h.core.mp (by rw [heq]; exact ⟨rfl, rfl⟩)
    refine ⟨hall, ?_⟩
    cases hf : z.follows qtype qname with
    | none => exact Or.inr (Or.inl rfl)
    | some t =>
      rcases h.rcode with hcode | ⟨-, -, hnot⟩
      · by_cases hends : z.EndsEmpty qtype (z.chainEnd qtype 8 qname)
        · -- The tree gives the start of authority and the lookup drops it.
          have hmissing := (h.missing hall).mpr (Or.inr hends)
          obtain ⟨hd, hm, hq, ht, htin⟩ := follows_eq_some_iff.mp hf
          obtain ⟨hl, htree⟩ := lookups_follow hd (isOwner_of_cnameAt ht) hm hq ht 7 htin
          have hauth := congrArg ZoneReply.authority heq
          rw [hl] at hcode
          have hcode : (z.lookupInZone qtype 7 t).rcode = .noError := hcode
          have hmissing : (z.treeLookup qtype 7 t).1 = .missing := by
            rw [htree] at hmissing
            exact hmissing
          rw [hl, htree] at hauth
          simp only [hcode, hmissing, if_true] at hauth
          unfold soaAuthority at hauth
          cases hsoa : z.soa with
          | none => exact Or.inl rfl
          | some rr => rw [hsoa] at hauth; cases hauth
        · exact Or.inr (Or.inr hends)
      · exact Or.inr (Or.inr hnot)
  · rintro ⟨hall, hcond⟩
    cases hf : z.follows qtype qname with
    | none => exact h.direct (Or.inr hf) hall
    | some t =>
      obtain ⟨hd, hm, hq, ht, htin⟩ := follows_eq_some_iff.mp hf
      obtain ⟨hl, htree⟩ := lookups_follow hd (isOwner_of_cnameAt ht) hm hq ht 7 htin
      have hallt : z.AllPlain qtype 7 t := (allPlain_follow hf).mp hall
      have hend : z.chainEnd qtype 8 qname = z.chainEnd qtype 7 t := by rw [chainEnd, hf]
      have ht' := compared z qtype 7 t
      obtain ⟨hanswers, hrcode⟩ := ht'.core.mpr hallt
      have hauth : (if (z.lookupInZone qtype 7 t).rcode = .noError then []
          else (z.lookupInZone qtype 7 t).authority) =
          if (z.treeLookup qtype 7 t).1 = .missing then z.soaAuthority else [] := by
        rcases ht'.rcode with hcode | ⟨hcode, hsoa, -⟩
        · rw [if_pos hcode]
          split_ifs with hmissing
          · have hends := ((ht'.missing hallt).mp hmissing).resolve_left (by simp [hcode])
            rw [hend] at hcond
            rcases hcond with hnone | hnone | hnot
            · rw [soaAuthority, hnone]
              rfl
            · rw [hf] at hnone
              cases hnone
            · exact absurd hends hnot
          · rfl
        · rw [if_neg (by simp [hcode]), hsoa, if_pos ((ht'.missing hallt).mpr (Or.inl hcode))]
      rw [hl, htree, hanswers, hauth, hrcode]

theorem lookup_eq_treeLookup_demoOwner :
    demoZone.lookup demoOwner .a = some (demoZone.treeLookup .a 8 demoOwner).2 ↔
      demoZone.Agrees .a demoOwner :=
  lookup_eq_treeLookup_iff .a (by decide)

/-- The name between the origin and the owner exists, and the lookup says that it does not. -/
theorem nxDomain_between :
    demoZone.inTree demoBetween = true ∧ demoZone.delegation demoBetween = none ∧
      (demoZone.lookup demoBetween .a).map ZoneReply.rcode = some .nxDomain ∧
      (demoZone.treeLookup .a 8 demoBetween).2.rcode = .noError := by
  decide

end CaveHome.Dns.Zone
