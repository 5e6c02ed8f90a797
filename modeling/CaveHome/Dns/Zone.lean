import CaveHome.Dns.Message
import CaveHome.Lib.Dict

/-!
# Zones

A zone answers for the names below its origin: by referral below a delegation, else from the
records of the name, from those of an alias, or from those of a wildcard.
-/

namespace CaveHome.Dns

structure ZoneReply where
  rcode : Rcode
  aa : Bool
  answers : List ResourceRecord
  authority : List ResourceRecord
  additional : List ResourceRecord

/-- The records of a zone by their owners, whose names are kept in lower case. -/
structure Zone where
  origin : Name
  owners : Dict Name (List ResourceRecord)
  soa : Option ResourceRecord

def Rdata.isSoa : Rdata → Bool
  | .soa .. => true
  | _ => false

def Rdata.isNs : Rdata → Bool
  | .ns _ => true
  | _ => false

def Rdata.isAddress : Rdata → Bool
  | .a _ => true
  | .aaaa _ => true
  | _ => false

def Rdata.cname? : Rdata → Option Name
  | .cname t => some t
  | _ => none

namespace Zone

def new (origin : Name) : Zone := ⟨origin, ∅, none⟩

def records (z : Zone) (name : Name) : Option (List ResourceRecord) :=
  z.owners.lookup name.canonical

def isOwner (z : Zone) (name : Name) : Bool := (z.records name).isSome

/-- Add a record; a start of authority at the origin is that of the zone. -/
def addRecord (z : Zone) (rr : ResourceRecord) : Zone where
  origin := z.origin
  owners := z.owners.insert rr.name.canonical ((z.records rr.name).getD [] ++ [rr])
  soa := if rr.rdata.isSoa && rr.name.eq z.origin then some rr else z.soa

/-- The records of a name that have a type. -/
def matching (z : Zone) (name : Name) (qtype : RecordType) : List ResourceRecord :=
  ((z.records name).getD []).filter fun r => qtype = .any || r.rtype = qtype

def soaAuthority (z : Zone) : List ResourceRecord := z.soa.toList

def glue (z : Zone) (nsTarget : Name) : List ResourceRecord :=
  ((z.records nsTarget).getD []).filter fun r => r.rdata.isAddress

/-- The owner of name server records below the origin that is the deepest on the way to a name. -/
def delegation (z : Zone) (qname : Name) : Option Name :=
  let points := z.owners.entries.filter fun e =>
    !e.1.eq z.origin && qname.isSubdomainOf e.1 && e.2.any fun r => r.rdata.isNs
  (points.map Sigma.fst).foldl (fun best owner =>
    match best with
    | none => some owner
    | some b => if b.labelCount ≤ owner.labelCount then some owner else some b) none

def referral (z : Zone) (deleg : Name) : ZoneReply :=
  let authority := z.matching deleg .ns
  { rcode := .noError
    aa := false
    answers := []
    authority := authority
    additional := authority.flatMap fun rr =>
      match rr.rdata with
      | .ns t => z.glue t
      | _ => [] }

def answer (answers : List ResourceRecord) : ZoneReply := ⟨.noError, true, answers, [], []⟩

def negative (z : Zone) (rcode : Rcode) : ZoneReply := ⟨rcode, true, [], z.soaAuthority, []⟩

def cnameAt (z : Zone) (name : Name) : Option Name :=
  ((z.records name).getD []).findSome? fun r => r.rdata.cname?

/-- The alias of a name, with the TTL of its record. -/
def cnameRecord (z : Zone) (owner target : Name) : ResourceRecord where
  name := owner
  cls := .internet
  ttl :=
    match ((z.records owner).getD []).find? fun x => x.rdata.cname?.isSome with
    | none => 3600
    | some x => x.ttl
  rdata := .cname target

/-- The wildcard below a name, where it is not too long to be a name. -/
def wildcardName (parent : Name) : Except WireError Name :=
  Name.fromLabels ([0x2A] :: parent.labels)

/-- Answer from the nearest wildcard above a name, as far as the origin. -/
def wildcardOver (z : Zone) (qname : Name) (qtype : RecordType) : List Name → Option ZoneReply
  | [] => none
  | parent :: rest =>
    if !parent.isSubdomainOf z.origin then none
    else
      match wildcardName parent with
      | .error _ => z.wildcardOver qname qtype rest
      | .ok wc =>
        let matched := z.matching wc qtype
        if !matched.isEmpty then some (answer (matched.map fun rr => { rr with name := qname }))
        else if z.isOwner wc then some (z.negative .noError)
        else z.wildcardOver qname qtype rest

def wildcard (z : Zone) (qname : Name) (qtype : RecordType) : Option ZoneReply :=
  z.wildcardOver qname qtype qname.ancestors

/-- The reply for a name of the zone, where as many aliases as given may still be followed. -/
def lookupInZone (z : Zone) (qtype : RecordType) (left : Nat) (qname : Name) : ZoneReply :=
  match z.delegation qname with
  | some deleg => z.referral deleg
  | none =>
    if z.isOwner qname then
      let matched := z.matching qname qtype
      if !matched.isEmpty then answer matched
      else
        match if qtype = .cname then none else z.cnameAt qname with
        | none => z.negative .noError
        | some target =>
          match left with
          | 0 => answer [z.cnameRecord qname target]
          | left + 1 =>
            if target.isSubdomainOf z.origin then
              let chained := z.lookupInZone qtype left target
              { rcode := chained.rcode
                aa := true
                answers := z.cnameRecord qname target :: chained.answers
                authority := if chained.rcode = .noError then [] else chained.authority
                additional := [] }
            else answer [z.cnameRecord qname target]
    else
      match z.wildcard qname qtype with
      | some reply => reply
      | none => z.negative .nxDomain

theorem lookupInZone_delegated {z : Zone} {qtype : RecordType} {left : Nat} {n d : Name}
    (hd : z.delegation n = some d) : z.lookupInZone qtype left n = z.referral d := by
  unfold lookupInZone
  rw [hd]

/-- The reply of the zone, unless the name is not in it. -/
def lookup (z : Zone) (qname : Name) (qtype : RecordType) : Option ZoneReply :=
  if !qname.isSubdomainOf z.origin then none else some (z.lookupInZone qtype 8 qname)

end Zone

/-!
## The tree of names

What the names of a zone prescribe for a lookup.  A name exists when it is an owner or above one.
A name that does not exist has the records of the wildcard below its closest ancestor that exists.
-/

namespace Zone

variable (z : Zone) (qtype : RecordType)

/-- The name is an owner or above one. -/
def inTree (n : Name) : Bool := z.owners.entries.any fun e => e.1.isSubdomainOf n

/-- The names above a name, as far as the origin. -/
def zoneAncestors (n : Name) : List Name :=
  n.ancestors.takeWhile fun a => a.isSubdomainOf z.origin

def closestEncloser (n : Name) : Option Name := (z.zoneAncestors n).find? z.inTree

/-- The wildcard below a name, if it is an owner. -/
def ownedWildcard (parent : Name) : Option Name :=
  match wildcardName parent with
  | .error _ => none
  | .ok wc => if z.isOwner wc then some wc else none

/-- The wildcard that stands for a name that does not exist. -/
def enclosingWildcard (n : Name) : Option Name := (z.closestEncloser n).bind z.ownedWildcard

/-- The first wildcard that is met from a name towards the origin. -/
def nearestWildcard (n : Name) : Option Name := (z.zoneAncestors n).findSome? z.ownedWildcard

/-- The records that the tree has for a name, if it has the name. -/
def treeRecords (n : Name) : Option (List ResourceRecord) :=
  if z.isOwner n then z.records n
  else if z.inTree n then some []
  else
    (z.enclosingWildcard n).bind fun wc =>
      (z.records wc).map (List.map fun rr => { rr with name := n })

/-- How a lookup ends: with data, without, or at names that others answer for. -/
inductive Ending
  | data
  | missing
  | elsewhere
deriving DecidableEq

/-- The reply that the tree prescribes, where as many aliases as given may still be followed. -/
def treeLookup (left : Nat) (qname : Name) : Ending × ZoneReply :=
  match z.delegation qname with
  | some deleg => (.elsewhere, z.referral deleg)
  | none =>
    match z.treeRecords qname with
    | none => (.missing, z.negative .nxDomain)
    | some rrs =>
      let matched := rrs.filter fun r => qtype = .any || r.rtype = qtype
      if !matched.isEmpty then (.data, answer matched)
      else
        match if qtype = .cname then none else rrs.findSome? fun r => r.rdata.cname? with
        | none => (.missing, z.negative .noError)
        | some target =>
          let cnameRr : ResourceRecord :=
            { name := qname
              cls := .internet
              ttl :=
                match rrs.find? fun x => x.rdata.cname?.isSome with
                | none => 3600
                | some x => x.ttl
              rdata := .cname target }
          match left with
          | 0 => (.elsewhere, answer [cnameRr])
          | left + 1 =>
            if target.isSubdomainOf z.origin then
              let chained := treeLookup left target
              (chained.1,
                { rcode := chained.2.rcode
                  aa := true
                  answers := cnameRr :: chained.2.answers
                  authority := if chained.1 = .missing then z.soaAuthority else []
                  additional := [] })
            else (.elsewhere, answer [cnameRr])

variable {z qtype} in
theorem treeLookup_delegated {left : Nat} {n d : Name} (hd : z.delegation n = some d) :
    z.treeLookup qtype left n = (.elsewhere, z.referral d) := by
  unfold treeLookup
  rw [hd]

/-! ## The names of a lookup -/

/-- The name of the zone that an alias leads on to. -/
def follows (n : Name) : Option Name :=
  if (z.delegation n).isNone && (z.matching n qtype).isEmpty && qtype ≠ .cname then
    (z.cnameAt n).filter fun t => t.isSubdomainOf z.origin
  else none

/-- The names that are looked up one after the other. -/
def chain : Nat → Name → List Name
  | 0, n => [n]
  | left + 1, n =>
    match z.follows qtype n with
    | none => [n]
    | some t => n :: chain left t

/-- The last of them. -/
def chainEnd : Nat → Name → Name
  | 0, n => n
  | left + 1, n =>
    match z.follows qtype n with
    | none => n
    | some t => chainEnd left t

/-- The name is an owner; or it exists, and a wildcard above it has no data of the type; or it
does not exist, and the only wildcard above it, if any, is the one that stands for it, with data
of the type or without an alias. -/
def Plain (n : Name) : Prop :=
  z.isOwner n = true ∨
    if z.inTree n then ∃ wc, z.nearestWildcard n = some wc ∧ z.matching wc qtype = []
    else ∀ wc, z.nearestWildcard n = some wc → z.enclosingWildcard n = some wc ∧
      (z.matching wc qtype ≠ [] ∨ qtype = .cname ∨ z.cnameAt wc = none)

/-- The lookup of the name itself ends without data. -/
def EndsEmpty (n : Name) : Prop :=
  z.delegation n = none ∧
    if z.isOwner n then z.matching n qtype = [] ∧ (qtype = .cname ∨ z.cnameAt n = none)
    else ∃ wc, z.nearestWildcard n = some wc ∧ z.matching wc qtype = []

/-- Every name that is looked up is plain. -/
def AllPlain (left : Nat) (n : Name) : Prop :=
  ∀ m ∈ z.chain qtype left n, z.delegation m = none → z.Plain qtype m

/-- The lookup takes the names of the tree: those it looks up are plain, and where an alias was
followed, the last one has data or is missing altogether, or the zone has no start of authority. -/
def Agrees (n : Name) : Prop :=
  z.AllPlain qtype 8 n ∧
    (z.soa = none ∨ z.follows qtype n = none ∨ ¬z.EndsEmpty qtype (z.chainEnd qtype 8 n))

/-! ## Wildcards -/

variable {z qtype}

theorem isOwner_of_ownedWildcard {a wc : Name} (h : z.ownedWildcard a = some wc) :
    wildcardName a = .ok wc ∧ z.isOwner wc = true := by
  unfold ownedWildcard at h
  split at h
  next => cases h
  next wc' hname =>
    split_ifs at h with howner
    cases h
    exact ⟨hname, howner⟩

theorem inTree_of_ownedWildcard {a wc : Name} (h : z.ownedWildcard a = some wc) :
    z.inTree a = true := by
  obtain ⟨hname, howner⟩ := isOwner_of_ownedWildcard h
  obtain ⟨rrs, hrrs⟩ := Option.isSome_iff_exists.mp howner
  have hmem : (⟨wc.canonical, rrs⟩ : Sigma fun _ : Name => List ResourceRecord) ∈
      z.owners.entries := Dict.mem_entries_iff.mpr hrrs
  refine List.any_eq_true.mpr ⟨_, hmem, Name.isSubdomainOf_iff.mpr ?_⟩
  have hlabels : wc.labels = [0x2A] :: a.labels := Name.fromLabels_eq_ok_iff.mp hname
  show a.labels.map lowercase <:+ (wc.labels.map lowercase).map lowercase
  have hlower : a.labels.map lowercase = a.labels.map (lowercase ∘ lowercase) :=
    List.map_congr_left fun l _ => (lowercase_lowercase l).symm
  rw [List.map_map, hlabels, List.map_cons, hlower]
  exact List.suffix_cons _ _

theorem nearestWildcard_of_enclosing {n wc : Name} (h : z.enclosingWildcard n = some wc) :
    z.nearestWildcard n = some wc := by
  obtain ⟨c, hc, hwc⟩ := Option.bind_eq_some_iff.mp h
  obtain ⟨-, front, back, hsplit, hfront⟩ := List.find?_eq_some_iff_append.mp hc
  have hnone : front.findSome? z.ownedWildcard = none := by
    refine List.findSome?_eq_none_iff.mpr fun a ha => ?_
    cases ha' : z.ownedWildcard a with
    | none => rfl
    | some wc' => simpa [inTree_of_ownedWildcard ha'] using hfront a ha
  rw [nearestWildcard, hsplit, List.findSome?_append, hnone, Option.none_or,
    List.findSome?_cons, hwc]

theorem matching_eq_nil_of_not_isOwner {n : Name} (h : z.isOwner n = false) :
    z.matching n qtype = [] := by
  unfold isOwner at h
  unfold matching
  rw [Option.isSome_eq_false_iff, Option.isNone_iff_eq_none] at h
  rw [h]
  rfl

/-- The reply from a wildcard. -/
def wildcardReply (z : Zone) (qtype : RecordType) (qname wc : Name) : ZoneReply :=
  if (z.matching wc qtype).isEmpty then z.negative .noError
  else answer ((z.matching wc qtype).map fun rr => { rr with name := qname })

theorem wildcardOver_eq (qname : Name) (names : List Name) :
    z.wildcardOver qname qtype names =
      ((names.takeWhile fun a => a.isSubdomainOf z.origin).findSome? z.ownedWildcard).map
        (z.wildcardReply qtype qname) := by
  induction names with
  | nil => rfl
  | cons parent rest ih =>
    unfold wildcardOver
    cases hin : parent.isSubdomainOf z.origin with
    | false => simp [hin]
    | true =>
      have htake : (parent :: rest).takeWhile (fun a => a.isSubdomainOf z.origin) =
          parent :: rest.takeWhile fun a => a.isSubdomainOf z.origin :=
        List.takeWhile_cons_of_pos hin
      rw [htake, List.findSome?_cons, ih]
      simp only [Bool.not_true, Bool.false_eq_true, if_false]
      unfold ownedWildcard
      cases wildcardName parent with
      | error e => rfl
      | ok wc =>
        dsimp only
        cases howner : z.isOwner wc with
        | false => simp [matching_eq_nil_of_not_isOwner howner]
        | true =>
          simp only [if_true, Option.map_some, wildcardReply]
          cases (z.matching wc qtype).isEmpty <;> rfl

theorem wildcard_eq (qname : Name) :
    z.wildcard qname qtype = (z.nearestWildcard qname).map (z.wildcardReply qtype qname) :=
  wildcardOver_eq qname _

end Zone

end CaveHome.Dns
