import CaveHome.Lib.MachineData
import Mathlib.Algebra.GroupWithZero.Nat

/-!
# Domain names

A name is a list of labels, the one next to the root last.  Names that differ in the case of ASCII
letters only are equal.
-/

namespace CaveHome.Dns

inductive WireError
  | unexpectedEof (needed : String)
  | labelTooLong (len : Nat)
  | nameTooLong (len : Nat)
  | invalidLabel
  | badCompressionPointer (offset : Nat)
  | reservedLabelType
  | rdataLengthMismatch (declared consumed : Nat)
deriving DecidableEq

def maxLabel : Nat := 63

def maxNameWire : Nat := 255

/-- The length of labels on the wire, with the octet that ends a name. -/
def wireLength (labels : List Bytes) : Nat := (labels.map fun l => 1 + l.length).sum + 1

/-- A name: labels of 1 to 63 octets, at most 255 octets on the wire. -/
structure Name where
  labels : List Bytes
  label : ∀ l ∈ labels, l ≠ [] ∧ l.length ≤ maxLabel
  wireLength_le : wireLength labels ≤ maxNameWire
deriving DecidableEq

def toAsciiLowercase (b : UInt8) : UInt8 := if 0x41 ≤ b && b ≤ 0x5A then b + 0x20 else b

/-- The octets with ASCII letters in lower case. -/
def lowercase (l : Bytes) : Bytes := l.map toAsciiLowercase

theorem toAsciiLowercase_toAsciiLowercase (b : UInt8) :
    toAsciiLowercase (toAsciiLowercase b) = toAsciiLowercase b := by
  unfold toAsciiLowercase
  split_ifs with h h'
  · simp only [Bool.and_eq_true, decide_eq_true_eq, UInt8.le_iff_toNat_le, UInt8.toNat_add,
      UInt8.reduceToNat] at h h'
    omega
  · rfl
  · rfl

theorem lowercase_lowercase (l : Bytes) : lowercase (lowercase l) = lowercase l := by
  unfold lowercase
  rw [List.map_map]
  exact List.map_congr_left fun b _ => toAsciiLowercase_toAsciiLowercase b

def eqIgnoreAsciiCase (a b : Bytes) : Bool := lowercase a = lowercase b

namespace Name

def root : Name := ⟨[], fun _ h => absurd h List.not_mem_nil, by decide⟩

/-- The first error that the labels of a name can have. -/
def labelError : List Bytes → Option WireError
  | [] => none
  | l :: labels =>
    if l = [] then some .invalidLabel
    else if maxLabel < l.length then some (.labelTooLong l.length)
    else labelError labels

theorem labelError_eq_none_iff {labels : List Bytes} :
    labelError labels = none ↔ ∀ l ∈ labels, l ≠ [] ∧ l.length ≤ maxLabel := by
  induction labels with
  | nil => simp [labelError]
  | cons l labels ih =>
    unfold labelError
    by_cases hempty : l = []
    · simp [hempty]
    · by_cases hlong : maxLabel < l.length
      · have hle : ¬l.length ≤ maxLabel := Nat.not_le.mpr hlong
        simp [hempty, hlong, hle]
      · have hle : l.length ≤ maxLabel := Nat.le_of_not_lt hlong
        simp [hempty, hlong, hle, ih]

def fromLabels (labels : List Bytes) : Except WireError Name :=
  match h : labelError labels with
  | some e => .error e
  | none =>
    if h' : maxNameWire < wireLength labels then .error (.nameTooLong (wireLength labels))
    else .ok ⟨labels, labelError_eq_none_iff.mp h, Nat.le_of_not_lt h'⟩

theorem fromLabels_eq_ok_iff {labels : List Bytes} {n : Name} :
    fromLabels labels = .ok n ↔ n.labels = labels := by
  unfold fromLabels
  constructor
  · intro h
    split at h
    · cases h
    · split_ifs at h
      cases h
      rfl
  · rintro rfl
    have hnone := labelError_eq_none_iff.mpr n.label
    split
    next e he => rw [hnone] at he; cases he
    next => rw [dif_neg (Nat.not_lt.mpr n.wireLength_le)]

def labelCount (n : Name) : Nat := n.labels.length

theorem length_lowercase (l : Bytes) : (lowercase l).length = l.length := List.length_map _

theorem wireLength_lowercase (labels : List Bytes) :
    wireLength (labels.map lowercase) = wireLength labels := by
  unfold wireLength
  rw [List.map_map]
  congr 3
  funext l
  exact congrArg (1 + ·) (length_lowercase l)

/-- The name in lower case. -/
def canonical (n : Name) : Name where
  labels := n.labels.map lowercase
  label := by
    intro l hl
    obtain ⟨l', hl', rfl⟩ := List.mem_map.mp hl
    obtain ⟨hne, hlen⟩ := n.label l' hl'
    exact ⟨fun h => hne (List.map_eq_nil_iff.mp h), (length_lowercase l').symm ▸ hlen⟩
  wireLength_le := (wireLength_lowercase n.labels).symm ▸ n.wireLength_le

/-- Fewer labels of a name make a name. -/
def dropLabels (n : Name) (k : Nat) : Name where
  labels := n.labels.drop k
  label := fun l hl => n.label l (List.mem_of_mem_drop hl)
  wireLength_le := by
    have hwire := n.wireLength_le
    unfold wireLength at *
    rw [← List.take_append_drop k n.labels, List.map_append, List.sum_append] at hwire
    omega

/-- The name without its first label. -/
def parent (n : Name) : Option Name := if n.labels = [] then none else some (n.dropLabels 1)

/-- The parent, its parent, and so on to the root, at most as many as given. -/
def parents : Nat → Name → List Name
  | 0, _ => []
  | k + 1, n =>
    match n.parent with
    | none => []
    | some p => p :: parents k p

/-- The names above a name, the nearest first. -/
def ancestors (n : Name) : List Name := parents n.labelCount n

/-- Equality that ignores the case of ASCII letters. -/
def eq (a b : Name) : Bool :=
  a.labels.length = b.labels.length &&
    (a.labels.zip b.labels).all fun p => eqIgnoreAsciiCase p.1 p.2

/-- Whether the name is the other one or below it. -/
def isSubdomainOf (n parent : Name) : Bool :=
  if parent.labels.length > n.labels.length then false
  else
    ((n.labels.drop (n.labels.length - parent.labels.length)).zip parent.labels).all fun p =>
      eqIgnoreAsciiCase p.1 p.2

theorem all_zip_iff {as bs : List Bytes} (h : as.length = bs.length) :
    ((as.zip bs).all fun p => eqIgnoreAsciiCase p.1 p.2) = true ↔
      as.map lowercase = bs.map lowercase := by
  induction as generalizing bs with
  | nil =>
    cases bs with
    | nil => simp
    | cons b bs => cases h
  | cons a as ih =>
    cases bs with
    | nil => cases h
    | cons b bs =>
      rw [List.zip_cons_cons, List.all_cons, Bool.and_eq_true, ih (Nat.succ.inj h)]
      simp [eqIgnoreAsciiCase]

theorem eq_iff {a b : Name} :
    a.eq b = true ↔ a.labels.map lowercase = b.labels.map lowercase := by
  unfold eq
  rw [Bool.and_eq_true, decide_eq_true_eq]
  constructor
  · rintro ⟨hlen, hall⟩
    exact (all_zip_iff hlen).mp hall
  · intro h
    have hlen : a.labels.length = b.labels.length := by simpa using congrArg List.length h
    exact ⟨hlen, (all_zip_iff hlen).mpr h⟩

theorem isSubdomainOf_iff {n parent : Name} :
    n.isSubdomainOf parent = true ↔
      parent.labels.map lowercase <:+ n.labels.map lowercase := by
  unfold isSubdomainOf
  split_ifs with hlen
  · refine ⟨fun h => (nomatch h), fun h => absurd h.length_le ?_⟩
    simpa using hlen
  · have hle : parent.labels.length ≤ n.labels.length := Nat.le_of_not_lt hlen
    rw [all_zip_iff (by rw [List.length_drop]; omega), List.suffix_iff_eq_drop, List.length_map,
      List.length_map, List.map_drop]
    exact eq_comm

end Name

end CaveHome.Dns

/-!
## Messages

A message has a header, the questions that are asked, and three sections of records.
-/

namespace CaveHome.Dns

inductive RecordType
  | a
  | ns
  | cname
  | soa
  | ptr
  | mx
  | txt
  | aaaa
  | srv
  | opt
  | any
  | unknown (code : UInt16)
deriving DecidableEq

namespace RecordType

def toU16 : RecordType → UInt16
  | a => 1
  | ns => 2
  | cname => 5
  | soa => 6
  | ptr => 12
  | mx => 15
  | txt => 16
  | aaaa => 28
  | srv => 33
  | opt => 41
  | any => 255
  | unknown v => v

def fromU16 (v : UInt16) : RecordType :=
  if v = 1 then a
  else if v = 2 then ns
  else if v = 5 then cname
  else if v = 6 then soa
  else if v = 12 then ptr
  else if v = 15 then mx
  else if v = 16 then txt
  else if v = 28 then aaaa
  else if v = 33 then srv
  else if v = 41 then opt
  else if v = 255 then any
  else unknown v

end RecordType

inductive Class
  | internet
  | chaos
  | hesiod
  | any
  | unknown (code : UInt16)
deriving DecidableEq

namespace Class

def toU16 : Class → UInt16
  | internet => 1
  | chaos => 3
  | hesiod => 4
  | any => 255
  | unknown v => v

def fromU16 (v : UInt16) : Class :=
  if v = 1 then internet
  else if v = 3 then chaos
  else if v = 4 then hesiod
  else if v = 255 then any
  else unknown v

end Class

/-- An address of `n` octets. -/
structure Octets (n : Nat) where
  bytes : Bytes
  length_bytes : bytes.length = n
deriving DecidableEq

/-- What a record says about its name. -/
inductive Rdata
  | a (ip : Octets 4)
  | aaaa (ip : Octets 16)
  | ns (name : Name)
  | cname (name : Name)
  | ptr (name : Name)
  | soa (mname rname : Name) (serial refresh retry expire minimum : UInt32)
  | mx (preference : UInt16) (exchange : Name)
  | txt (strings : List Bytes)
  | srv (priority weight port : UInt16) (target : Name)
  | unknown (rtype : UInt16) (data : Bytes)

def Rdata.recordType : Rdata → RecordType
  | a _ => .a
  | aaaa _ => .aaaa
  | ns _ => .ns
  | cname _ => .cname
  | ptr _ => .ptr
  | soa .. => .soa
  | mx .. => .mx
  | txt _ => .txt
  | srv .. => .srv
  | unknown rtype _ => .unknown rtype

structure ResourceRecord where
  name : Name
  cls : Class
  ttl : UInt32
  rdata : Rdata

def ResourceRecord.rtype (rr : ResourceRecord) : RecordType := rr.rdata.recordType

inductive Opcode
  | query
  | iquery
  | status
  | notify
  | update
deriving DecidableEq

namespace Opcode

def toU8 : Opcode → UInt8
  | query => 0
  | iquery => 1
  | status => 2
  | notify => 4
  | update => 5

/-- Other values are read as queries. -/
def fromU8 (v : UInt8) : Opcode :=
  if v = 1 then iquery
  else if v = 2 then status
  else if v = 4 then notify
  else if v = 5 then update
  else query

end Opcode

inductive Rcode
  | noError
  | formErr
  | servFail
  | nxDomain
  | notImp
  | refused
  | yxDomain
  | yxrrSet
  | nxrrSet
  | notAuth
  | notZone
deriving DecidableEq

namespace Rcode

def toU8 : Rcode → UInt8
  | noError => 0
  | formErr => 1
  | servFail => 2
  | nxDomain => 3
  | notImp => 4
  | refused => 5
  | yxDomain => 6
  | yxrrSet => 7
  | nxrrSet => 8
  | notAuth => 9
  | notZone => 10

/-- Other values are read as failures of the server. -/
def fromU8 (v : UInt8) : Rcode :=
  if v = 0 then noError
  else if v = 1 then formErr
  else if v = 3 then nxDomain
  else if v = 4 then notImp
  else if v = 5 then refused
  else if v = 6 then yxDomain
  else if v = 7 then yxrrSet
  else if v = 8 then nxrrSet
  else if v = 9 then notAuth
  else if v = 10 then notZone
  else servFail

end Rcode

structure Header where
  id : UInt16
  qr : Bool
  opcode : Opcode
  aa : Bool
  tc : Bool
  rd : Bool
  ra : Bool
  z : Bool
  ad : Bool
  cd : Bool
  rcode : Rcode
  qdcount : UInt16
  ancount : UInt16
  nscount : UInt16
  arcount : UInt16
deriving DecidableEq

structure Question where
  name : Name
  qtype : RecordType
  qclass : Class

structure Message where
  header : Header
  questions : List Question
  answers : List ResourceRecord
  authority : List ResourceRecord
  additional : List ResourceRecord

def Message.empty (id : UInt16) : Message where
  header :=
    ⟨id, false, .query, false, false, false, false, false, false, false, .noError, 0, 0, 0, 0⟩
  questions := []
  answers := []
  authority := []
  additional := []

end CaveHome.Dns
