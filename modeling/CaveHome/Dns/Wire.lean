import CaveHome.Dns.Message
import CaveHome.Lib.Decoder
import CaveHome.Lib.Rounds

/-!
# Reading messages

A reader is a position in a message.  The labels of a name are followed by an octet zero or by a
pointer to labels further to the front.  Pointers go to the front only, but the labels there may run
forward into the same pointer again: what bounds the turns is the length of the name and then the
position.
-/

namespace CaveHome.Dns

open Rounds

/-- The two high bits of a length octet that mark a pointer. -/
def ptrMask : UInt8 := 0xC0

/-- A position in a message. -/
structure Reader where
  buf : Bytes
  pos : Nat

def Reader.new (buf : Bytes) : Reader := ⟨buf, 0⟩

abbrev Decode (α : Type) := StateT Reader (Except WireError) α

/-- The octets from a position to another one, if the second is in the buffer. -/
def slice (buf : Bytes) (start stop : Nat) : Option Bytes :=
  if stop ≤ buf.length then some ((buf.drop start).take (stop - start)) else none

/-! ## Numbers and octets -/

def readU8 : Decode UInt8 := fun r =>
  match r.buf[r.pos]? with
  | none => .error (.unexpectedEof "u8")
  | some b => .ok (b, { r with pos := r.pos + 1 })

def readU16 : Decode UInt16 := do
  let hi ← readU8
  let lo ← readU8
  return (hi.toUInt16 <<< 8) ||| lo.toUInt16

def readU32 : Decode UInt32 := do
  let hi ← readU16
  let lo ← readU16
  return (hi.toUInt32 <<< 16) ||| lo.toUInt32

theorem length_slice {buf l : Bytes} {start n : Nat} (h : slice buf start (start + n) = some l) :
    l.length = n ∧ start + n ≤ buf.length := by
  unfold slice at h
  split at h
  next hle =>
    obtain rfl := Option.some.inj h
    rw [List.length_take, List.length_drop]
    omega
  next => cases h

def readBytes (n : Nat) : Decode (Octets n) := fun r =>
  match h : slice r.buf r.pos (r.pos + n) with
  | none => .error (.unexpectedEof "bytes")
  | some bytes => .ok (⟨bytes, (length_slice h).1⟩, { r with pos := r.pos + n })

def setPosition (pos : Nat) : Decode Unit := fun r =>
  if r.buf.length < pos then .error (.unexpectedEof "seek") else .ok ((), { r with pos := pos })

/-! ## Names -/

/-- The variables of the loop that reads a name.  The cursor stays where it is after a jump. -/
structure NameState where
  labels : List Bytes
  wireLen : Nat
  pos : Nat
  jumped : Bool
  cursor : Nat

namespace NameState

/-- The octets up to a position are read. -/
def move (s : NameState) (pos : Nat) : NameState :=
  { s with pos := pos, cursor := if s.jumped then s.cursor else pos }

/-- Reading goes on at the target of a pointer. -/
def jump (s : NameState) (target : Nat) : NameState :=
  { s with pos := target, jumped := true, cursor := if s.jumped then s.cursor else s.pos + 2 }

end NameState

/-- One turn of the loop that reads a name: it ends with the labels and the cursor. -/
def nameStep (buf : Bytes) (s : NameState) : Except WireError (Turn NameState (List Bytes × Nat)) :=
  match buf[s.pos]? with
  | none => .error (.unexpectedEof "label length")
  | some lenByte =>
    if lenByte &&& ptrMask = 0 then
      if lenByte.toNat = 0 then .ok (.leave (s.labels, (s.move (s.pos + 1)).cursor))
      else
        match slice buf (s.pos + 1) (s.pos + 1 + lenByte.toNat) with
        | none => .error (.unexpectedEof "label")
        | some label =>
          let wireLen := s.wireLen + (1 + lenByte.toNat)
          if maxNameWire < wireLen then .error (.nameTooLong wireLen)
          else
            .ok (.again ({ s with labels := s.labels ++ [label], wireLen := wireLen }.move
              (s.pos + 1 + lenByte.toNat)))
    else if lenByte &&& ptrMask = ptrMask then
      match buf[s.pos + 1]? with
      | none => .error (.unexpectedEof "pointer")
      | some lo =>
        let target := ((lenByte &&& ~~~ptrMask).toNat <<< 8) ||| lo.toNat
        if s.pos ≤ target then .error (.badCompressionPointer target)
        else .ok (.again (s.jump target))
    else .error .reservedLabelType

/-- A label makes the name longer and a pointer goes to the front. -/
def nameSize (buf : Bytes) (s : NameState) : Nat :=
  (maxNameWire + 1 - s.wireLen) * (buf.length + 1) + min s.pos buf.length

theorem nameStep_eq_again {buf : Bytes} {s s' : NameState} (h : nameStep buf s = .ok (.again s')) :
    (∃ lenByte label, buf[s.pos]? = some lenByte ∧ lenByte &&& ptrMask = 0 ∧ lenByte.toNat ≠ 0 ∧
      slice buf (s.pos + 1) (s.pos + 1 + lenByte.toNat) = some label ∧
      s.wireLen + (1 + lenByte.toNat) ≤ maxNameWire ∧
      s' = { s with labels := s.labels ++ [label], wireLen := s.wireLen + (1 + lenByte.toNat) }.move
        (s.pos + 1 + lenByte.toNat)) ∨
    ∃ lenByte lo, buf[s.pos]? = some lenByte ∧ lenByte &&& ptrMask = ptrMask ∧
      buf[s.pos + 1]? = some lo ∧ ((lenByte &&& ~~~ptrMask).toNat <<< 8) ||| lo.toNat < s.pos ∧
      s' = s.jump (((lenByte &&& ~~~ptrMask).toNat <<< 8) ||| lo.toNat) := by
  unfold nameStep at h
  split at h
  · cases h
  next lenByte hlen =>
    split_ifs at h with hlabel hzero hptr
    · cases h
    · split at h
      · cases h
      next label hslice =>
        dsimp only at h
        split_ifs at h with hlong
        obtain rfl := Turn.again.inj (Except.ok.inj h)
        exact Or.inl ⟨lenByte, label, hlen, hlabel, hzero, hslice, Nat.le_of_not_lt hlong, rfl⟩
    · split at h
      · cases h
      next lo hlo =>
        dsimp only at h
        split_ifs at h with htarget
        obtain rfl := Turn.again.inj (Except.ok.inj h)
        exact Or.inr ⟨lenByte, lo, hlen, hptr, hlo, Nat.lt_of_not_le htarget, rfl⟩

theorem nameStep_eq_leave {buf : Bytes} {s : NameState} {r : List Bytes × Nat}
    (h : nameStep buf s = .ok (.leave r)) :
    buf[s.pos]? = some 0 ∧ r = (s.labels, (s.move (s.pos + 1)).cursor) := by
  unfold nameStep at h
  split at h
  · cases h
  next lenByte hlen =>
    split_ifs at h with hlabel hzero hptr
    · obtain rfl : lenByte = 0 := UInt8.toNat_inj.mp hzero
      exact ⟨hlen, (Turn.leave.inj (Except.ok.inj h)).symm⟩
    · split at h
      · cases h
      · dsimp only at h
        split_ifs at h
        cases h
    · split at h
      · cases h
      · dsimp only at h
        split_ifs at h
        cases h

theorem nameStep_decreases (buf : Bytes) : Decreases (nameStep buf) (nameSize buf) := by
  intro s s' h
  obtain ⟨lenByte, label, hlen, -, hzero, hslice, hle, rfl⟩ | ⟨lenByte, lo, hlen, -, -, hlt, rfl⟩ :=
    nameStep_eq_again h
  · have hfewer : (maxNameWire + 1 - (s.wireLen + (1 + lenByte.toNat))) + 1 ≤
        maxNameWire + 1 - s.wireLen := by omega
    have hmul := Nat.mul_le_mul_right (buf.length + 1) hfewer
    rw [Nat.add_mul, Nat.one_mul] at hmul
    have hmin := Nat.min_le_right (s.pos + 1 + lenByte.toNat) buf.length
    show (maxNameWire + 1 - (s.wireLen + (1 + lenByte.toNat))) * (buf.length + 1) +
      min (s.pos + 1 + lenByte.toNat) buf.length < nameSize buf s
    unfold nameSize
    omega
  · have hpos : s.pos < buf.length := (List.getElem?_eq_some_iff.mp hlen).1
    show (maxNameWire + 1 - s.wireLen) * (buf.length + 1) +
      min (((lenByte &&& ~~~ptrMask).toNat <<< 8) ||| lo.toNat) buf.length < nameSize buf s
    unfold nameSize
    omega

def NameState.start (pos : Nat) : NameState := ⟨[], 1, pos, false, pos⟩

def readName : Decode Name := fun r => do
  let (labels, cursor) ← run (nameStep r.buf) (nameSize r.buf) (nameStep_decreases r.buf)
    (.start r.pos)
  let name ← Name.fromLabels labels
  return (name, { r with pos := cursor })

/-- The labels that stand at a position of a message, and the position after them: after the octet
that ends them or after the first pointer. -/
inductive NameAt (buf : Bytes) : Nat → List Bytes → Nat → Prop
  | root {pos : Nat} : buf[pos]? = some 0 → NameAt buf pos [] (pos + 1)
  | label {pos stop : Nat} {lenByte : UInt8} {label : Bytes} {labels : List Bytes} :
      buf[pos]? = some lenByte → lenByte &&& ptrMask = 0 → lenByte.toNat ≠ 0 →
      slice buf (pos + 1) (pos + 1 + lenByte.toNat) = some label →
      NameAt buf (pos + 1 + lenByte.toNat) labels stop → NameAt buf pos (label :: labels) stop
  | pointer {pos stop : Nat} {lenByte lo : UInt8} {labels : List Bytes} :
      buf[pos]? = some lenByte → lenByte &&& ptrMask = ptrMask → buf[pos + 1]? = some lo →
      ((lenByte &&& ~~~ptrMask).toNat <<< 8) ||| lo.toNat < pos →
      NameAt buf (((lenByte &&& ~~~ptrMask).toNat <<< 8) ||| lo.toNat) labels stop →
      NameAt buf pos labels (pos + 2)

section

variable {buf : Bytes} {pos stop : Nat} {labels : List Bytes}

theorem NameAt.lt_stop (h : NameAt buf pos labels stop) : pos < stop := by
  induction h with
  | root => omega
  | label => omega
  | pointer => omega

theorem NameAt.stop_le (h : NameAt buf pos labels stop) : stop ≤ buf.length := by
  induction h with
  | root hroot => exact (List.getElem?_eq_some_iff.mp hroot).1
  | label _ _ _ _ _ ih => exact ih
  | pointer _ _ hlo => exact (List.getElem?_eq_some_iff.mp hlo).1

theorem toNat_le_of_and_ptrMask {b : UInt8} (h : b &&& ptrMask = 0) : b.toNat ≤ maxLabel := by
  have hfin : ∀ n : Fin 256, (UInt8.ofNat n.val) &&& ptrMask = 0 → n.val ≤ maxLabel := by
    decide +kernel
  have hb := hfin ⟨b.toNat, b.toNat_lt⟩
  rw [UInt8.ofNat_toNat] at hb
  exact hb h

theorem NameAt.label_length (h : NameAt buf pos labels stop) :
    ∀ l ∈ labels, 1 ≤ l.length ∧ l.length ≤ maxLabel := by
  induction h with
  | root => exact fun l hl => absurd hl List.not_mem_nil
  | @label pos stop lenByte label labels _ hlabel hzero hslice _ ih =>
    intro l hl
    obtain rfl | hl := List.mem_cons.mp hl
    · rw [(length_slice hslice).1]
      exact ⟨Nat.one_le_iff_ne_zero.mpr hzero, toNat_le_of_and_ptrMask hlabel⟩
    · exact ih l hl
  | pointer _ _ _ _ _ ih => exact ih

theorem NameAt.isInfix (h : NameAt buf pos labels stop) : ∀ l ∈ labels, l <:+: buf := by
  induction h with
  | root => exact fun l hl => absurd hl List.not_mem_nil
  | @label pos stop lenByte label labels _ _ _ hslice _ ih =>
    intro l hl
    obtain rfl | hl := List.mem_cons.mp hl
    · unfold slice at hslice
      split_ifs at hslice
      rw [← Option.some.inj hslice]
      exact ((List.take_prefix _ _).isInfix).trans (List.drop_suffix _ _).isInfix
    · exact ih l hl
  | pointer _ _ _ _ _ ih => exact ih

theorem wireLength_cons (l : Bytes) (labels : List Bytes) :
    wireLength (l :: labels) = wireLength labels + (1 + l.length) := by
  unfold wireLength
  rw [List.map_cons, List.sum_cons]
  omega

theorem NameAt.run (h : NameAt buf pos labels stop) {s : NameState} (hpos : s.pos = pos)
    (hle : s.wireLen + (wireLength labels - 1) ≤ maxNameWire) :
    Rounds.run (nameStep buf) (nameSize buf) (nameStep_decreases buf) s =
      .ok (s.labels ++ labels, if s.jumped then s.cursor else stop) := by
  induction h generalizing s with
  | root hroot =>
    subst hpos
    have hstep : nameStep buf s = .ok (.leave (s.labels, (s.move (s.pos + 1)).cursor)) := by
      unfold nameStep
      rw [hroot]
      rfl
    rw [run_of_leave hstep, List.append_nil]
    rfl
  | @label pos stop lenByte label labels hlen hlabel hzero hslice _ ih =>
    subst hpos
    have hlength := (length_slice hslice).1
    rw [wireLength_cons, hlength] at hle
    have hone : 1 ≤ wireLength labels := Nat.le_add_left 1 _
    have hlong : ¬ maxNameWire < s.wireLen + (1 + lenByte.toNat) := by omega
    have hstep : nameStep buf s = .ok (.again ({ s with labels := s.labels ++ [label], wireLen :=
        s.wireLen + (1 + lenByte.toNat) }.move (s.pos + 1 + lenByte.toNat))) := by
      unfold nameStep
      rw [hlen]
      dsimp only
      rw [if_pos hlabel, if_neg hzero, hslice]
      exact if_neg hlong
    rw [run_of_again hstep, ih rfl (by show s.wireLen + (1 + lenByte.toNat) + _ ≤ _; omega)]
    unfold NameState.move
    dsimp only
    rw [List.append_assoc, List.singleton_append]
    cases s.jumped <;> rfl
  | @pointer pos stop lenByte lo labels hlen hptr hlo hlt _ ih =>
    subst hpos
    have hstep : nameStep buf s =
        .ok (.again (s.jump (((lenByte &&& ~~~ptrMask).toNat <<< 8) ||| lo.toNat))) := by
      unfold nameStep
      rw [hlen]
      dsimp only
      rw [if_neg (by rw [hptr]; decide), if_pos hptr, hlo]
      exact if_neg (Nat.not_le.mpr hlt)
    rw [run_of_again hstep, ih (s := s.jump _) rfl hle]
    rfl

end

theorem NameState.cursor_move {s : NameState} {pos stop : Nat} :
    (if (s.move pos).jumped then (s.move pos).cursor else stop) =
      if s.jumped then s.cursor else stop := by
  unfold NameState.move
  cases s.jumped <;> rfl

theorem nameAt_of_run {buf : Bytes} {s : NameState} {r : List Bytes × Nat}
    (h : run (nameStep buf) (nameSize buf) (nameStep_decreases buf) s = .ok r) :
    ∃ labels stop, NameAt buf s.pos labels stop ∧ r.1 = s.labels ++ labels ∧
      (r.2 = if s.jumped then s.cursor else stop) ∧
      (s.wireLen ≤ maxNameWire → s.wireLen + (wireLength labels - 1) ≤ maxNameWire) := by
  refine run_induction (P := fun s r => ∃ labels stop, NameAt buf s.pos labels stop ∧
    r.1 = s.labels ++ labels ∧ (r.2 = if s.jumped then s.cursor else stop) ∧
    (s.wireLen ≤ maxNameWire → s.wireLen + (wireLength labels - 1) ≤ maxNameWire)) ?_ ?_ h
  · intro s r hstep
    obtain ⟨hroot, rfl⟩ := nameStep_eq_leave hstep
    exact ⟨[], s.pos + 1, .root hroot, (List.append_nil _).symm, rfl, fun hle => hle⟩
  · intro s s' r hstep hr
    obtain ⟨labels, stop, hname, hlabels, hcursor, hwire⟩ := hr
    obtain ⟨lenByte, label, hlen, hlabel, hzero, hslice, hle, rfl⟩ |
      ⟨lenByte, lo, hlen, hptr, hlo, hlt, rfl⟩ := nameStep_eq_again hstep
    · refine ⟨label :: labels, stop, .label hlen hlabel hzero hslice hname, ?_, ?_, fun _ => ?_⟩
      · rw [hlabels]
        exact (List.append_assoc _ _ _).trans (congrArg _ List.singleton_append)
      · rw [hcursor, NameState.cursor_move]
      · have hmore := hwire hle
        have hone : 1 ≤ wireLength labels := Nat.le_add_left 1 _
        rw [wireLength_cons, (length_slice hslice).1]
        change s.wireLen + (1 + lenByte.toNat) + (wireLength labels - 1) ≤ maxNameWire at hmore
        omega
    · exact ⟨labels, s.pos + 2, .pointer hlen hptr hlo hlt hname, hlabels, hcursor, hwire⟩

theorem readName_eq_ok_iff {r r' : Reader} {n : Name} :
    readName r = .ok (n, r') ↔ r'.buf = r.buf ∧ NameAt r.buf r.pos n.labels r'.pos := by
  unfold readName
  simp only [Except.bind_eq_ok_iff, Prod.exists, Name.fromLabels_eq_ok_iff,
    Except.pure_eq_ok_iff, Prod.mk.injEq]
  constructor
  · rintro ⟨labels, cursor, hrun, n', hn, rfl, rfl⟩
    obtain ⟨labels', stop, hname, hlabels, hcursor, -⟩ := nameAt_of_run hrun
    refine ⟨rfl, ?_⟩
    dsimp only at hlabels hcursor
    rw [hn, hlabels, hcursor]
    exact hname
  · rintro ⟨hbuf, hname⟩
    have hone : 1 ≤ wireLength n.labels := Nat.le_add_left 1 _
    have hle := n.wireLength_le
    refine ⟨n.labels, r'.pos, hname.run rfl ?_, n, rfl, rfl, ?_⟩
    · show 1 + (wireLength n.labels - 1) ≤ maxNameWire
      omega
    · rw [← hbuf]

/-! ## Records and messages -/

/-- One turn of the loop that reads the strings of a text record. -/
def txtStep (stop : Nat) (s : Reader × List Bytes) :
    Except WireError (Turn (Reader × List Bytes) (List Bytes × Reader)) :=
  if s.1.pos < stop then do
    let (len, r) ← readU8 s.1
    let (bytes, r) ← readBytes len.toNat r
    return .again (r, s.2 ++ [bytes.bytes])
  else return .leave (s.2, s.1)

theorem readU8_eq_ok_iff {r r' : Reader} {b : UInt8} :
    readU8 r = .ok (b, r') ↔ r.buf[r.pos]? = some b ∧ r' = ⟨r.buf, r.pos + 1⟩ := by
  unfold readU8
  split
  next hnone => simp [hnone]
  next b' hsome =>
    rw [hsome]
    simp [eq_comm]

theorem readBytes_eq_ok_iff {r r' : Reader} {n : Nat} {bytes : Octets n} :
    readBytes n r = .ok (bytes, r') ↔
      slice r.buf r.pos (r.pos + n) = some bytes.bytes ∧ r' = ⟨r.buf, r.pos + n⟩ := by
  unfold readBytes
  split
  next hnone => simp [hnone]
  next l hsome =>
    cases bytes
    simp [hsome, eq_comm]

theorem txtStep_decreases (stop : Nat) : Decreases (txtStep stop) fun s => stop - s.1.pos := by
  intro s s' h
  unfold txtStep at h
  split_ifs at h with hlt
  · simp only [Except.bind_eq_ok_iff, Prod.exists, readU8_eq_ok_iff, readBytes_eq_ok_iff] at h
    obtain ⟨len, r₁, ⟨-, rfl⟩, bytes, r₂, ⟨-, rfl⟩, h⟩ := h
    obtain rfl := Turn.again.inj (Except.ok.inj h)
    dsimp only
    omega
  · cases h

def readTxt (stop : Nat) : Decode (List Bytes) := fun r =>
  run (txtStep stop) (fun s => stop - s.1.pos) (txtStep_decreases stop) (r, [])

namespace Rdata

/-- The data of a record of a type, without regard to the declared length. -/
def decodeFields (rtype : RecordType) (rdlength stop : Nat) : Decode Rdata :=
  match rtype with
  | .a => return .a (← readBytes 4)
  | .aaaa => return .aaaa (← readBytes 16)
  | .ns => return .ns (← readName)
  | .cname => return .cname (← readName)
  | .ptr => return .ptr (← readName)
  | .soa => do
    let mname ← readName
    let rname ← readName
    let serial ← readU32
    let refresh ← readU32
    let retry ← readU32
    let expire ← readU32
    let minimum ← readU32
    return .soa mname rname serial refresh retry expire minimum
  | .mx => do
    let preference ← readU16
    let exchange ← readName
    return .mx preference exchange
  | .txt => return .txt (← readTxt stop)
  | .srv => do
    let priority ← readU16
    let weight ← readU16
    let port ← readU16
    let target ← readName
    return .srv priority weight port target
  | .opt | .any | .unknown _ => do
    let data ← readBytes rdlength
    return .unknown rtype.toU16 data.bytes

/-- The data of a record of a type and a declared length, which may be longer than what is read. -/
def decode (rtype : RecordType) (rdlength : Nat) : Decode Rdata := fun r => do
  let (rd, r') ← decodeFields rtype rdlength (r.pos + rdlength) r
  let consumed := r'.pos - r.pos
  if rdlength < consumed then .error (.rdataLengthMismatch rdlength consumed)
  else if consumed < rdlength then do
    let ((), r'') ← setPosition (r.pos + rdlength) r'
    return (rd, r'')
  else return (rd, r')

end Rdata

def ResourceRecord.decode : Decode ResourceRecord := do
  let name ← readName
  let rtype := RecordType.fromU16 (← readU16)
  let cls := Class.fromU16 (← readU16)
  let ttl ← readU32
  let rdlength := (← readU16).toNat
  let rdata ← Rdata.decode rtype rdlength
  return ⟨name, cls, ttl, rdata⟩

def Question.decode : Decode Question := do
  let name ← readName
  let qtype := RecordType.fromU16 (← readU16)
  let qclass := Class.fromU16 (← readU16)
  return ⟨name, qtype, qclass⟩

/-- The header with these flags and numbers. -/
def Header.ofFields (id : UInt16) (flags1 flags2 : UInt8)
    (qdcount ancount nscount arcount : UInt16) : Header where
  id := id
  qr := flags1 &&& 0x80 != 0
  opcode := Opcode.fromU8 ((flags1 >>> 3) &&& 0x0F)
  aa := flags1 &&& 0x04 != 0
  tc := flags1 &&& 0x02 != 0
  rd := flags1 &&& 0x01 != 0
  ra := flags2 &&& 0x80 != 0
  z := flags2 &&& 0x40 != 0
  ad := flags2 &&& 0x20 != 0
  cd := flags2 &&& 0x10 != 0
  rcode := Rcode.fromU8 (flags2 &&& 0x0F)
  qdcount := qdcount
  ancount := ancount
  nscount := nscount
  arcount := arcount

def Header.decode : Decode Header := do
  let id ← readU16
  let flags1 ← readU8
  let flags2 ← readU8
  let qdcount ← readU16
  let ancount ← readU16
  let nscount ← readU16
  let arcount ← readU16
  return .ofFields id flags1 flags2 qdcount ancount nscount arcount

/-- So many values one after the other. -/
def readMany {α : Type} (d : Decode α) : Nat → Decode (List α)
  | 0 => pure []
  | n + 1 => do
    let a ← d
    let as ← readMany d n
    return a :: as

/-- The sections behind a header, with so many entries each. -/
def Message.readSections (header : Header) (qd an ns ar : Nat) : Decode Message := do
  let questions ← readMany Question.decode qd
  let answers ← readMany ResourceRecord.decode an
  let authority ← readMany ResourceRecord.decode ns
  let additional ← readMany ResourceRecord.decode ar
  return ⟨header, questions, answers, authority, additional⟩

def Message.read : Decode Message := do
  let header ← Header.decode
  readSections header header.qdcount.toNat header.ancount.toNat header.nscount.toNat
    header.arcount.toNat

def Message.decode (buf : Bytes) : Except WireError Message := Prod.fst <$> Message.read (.new buf)

/-! ## Decoding ends within the message -/

/-- A decoder goes forward and stops in the buffer. -/
def Advances {α : Type} (d : Decode α) : Prop :=
  ∀ ⦃r a r'⦄, d r = .ok (a, r') → r.pos ≤ r.buf.length →
    r'.buf = r.buf ∧ r.pos ≤ r'.pos ∧ r'.pos ≤ r.buf.length

section

variable {α β : Type} {d : Decode α} {k : α → Decode β}

theorem Decode.bind_eq_ok_iff {r : Reader} {x : β × Reader} :
    (d >>= k) r = .ok x ↔ ∃ a r', d r = .ok (a, r') ∧ k a r' = .ok x := by
  change ((d r).bind fun y => k y.1 y.2) = .ok x ↔ _
  cases h : d r with
  | error e => simp [Except.bind]
  | ok y =>
    obtain ⟨a, r'⟩ := y
    simp [Except.bind]

theorem Advances.pure (a : α) : Advances (pure a : Decode α) := by
  intro r b r' h hr
  cases h
  exact ⟨rfl, le_rfl, hr⟩

theorem Advances.bind (hd : Advances d) (hk : ∀ a, Advances (k a)) : Advances (d >>= k) := by
  intro r b r' h hr
  obtain ⟨a, r₁, h₁, h₂⟩ := Decode.bind_eq_ok_iff.mp h
  obtain ⟨hbuf, hle, hend⟩ := hd h₁ hr
  obtain ⟨hbuf', hle', hend'⟩ := hk a h₂ (hbuf ▸ hend)
  exact ⟨hbuf'.trans hbuf, hle.trans hle', hbuf ▸ hend'⟩

theorem advances_readU8 : Advances readU8 := by
  intro r b r' h hr
  obtain ⟨hget, rfl⟩ := readU8_eq_ok_iff.mp h
  exact ⟨rfl, Nat.le_succ _, (List.getElem?_eq_some_iff.mp hget).1⟩

theorem advances_readU16 : Advances readU16 :=
  advances_readU8.bind fun _ => advances_readU8.bind fun _ => .pure _

theorem advances_readU32 : Advances readU32 :=
  advances_readU16.bind fun _ => advances_readU16.bind fun _ => .pure _

theorem advances_readBytes (n : Nat) : Advances (readBytes n) := by
  intro r b r' h hr
  obtain ⟨hslice, rfl⟩ := readBytes_eq_ok_iff.mp h
  exact ⟨rfl, Nat.le_add_right _ _, (length_slice hslice).2⟩

theorem advances_readName : Advances readName := by
  intro r n r' h _
  obtain ⟨hbuf, hname⟩ := readName_eq_ok_iff.mp h
  exact ⟨hbuf, hname.lt_stop.le, hname.stop_le⟩

theorem advances_readTxt (stop : Nat) : Advances (readTxt stop) := by
  intro r strings r' h
  refine run_induction (P := fun s x => s.1.pos ≤ s.1.buf.length →
    x.2.buf = s.1.buf ∧ s.1.pos ≤ x.2.pos ∧ x.2.pos ≤ s.1.buf.length) ?_ ?_ h
  · intro s x hstep hle
    unfold txtStep at hstep
    split_ifs at hstep
    · simp only [Except.bind_eq_ok_iff, Prod.exists] at hstep
      obtain ⟨_, _, -, _, _, -, hstep⟩ := hstep
      cases hstep
    · cases hstep
      exact ⟨rfl, le_rfl, hle⟩
  · intro s s' x hstep hx hle
    unfold txtStep at hstep
    split_ifs at hstep
    · simp only [Except.bind_eq_ok_iff, Prod.exists] at hstep
      obtain ⟨len, r₁, h₁, bytes, r₂, h₂, hstep⟩ := hstep
      cases hstep
      obtain ⟨hbuf₁, hle₁, hend₁⟩ := advances_readU8 h₁ hle
      obtain ⟨hbuf₂, hle₂, hend₂⟩ := advances_readBytes _ h₂ (hbuf₁ ▸ hend₁)
      obtain ⟨hbuf, hle', hend⟩ := hx (hbuf₂ ▸ hend₂)
      dsimp only at hbuf hle' hend
      rw [hbuf₂, hbuf₁] at hbuf hend
      exact ⟨hbuf, (hle₁.trans hle₂).trans hle', hend⟩
    · cases hstep

theorem advances_decodeFields (rtype : RecordType) (rdlength stop : Nat) :
    Advances (Rdata.decodeFields rtype rdlength stop) := by
  unfold Rdata.decodeFields
  split
  case h_1 | h_2 => exact (advances_readBytes _).bind fun _ => .pure _
  case h_3 | h_4 | h_5 => exact advances_readName.bind fun _ => .pure _
  case h_6 =>
    exact advances_readName.bind fun _ => advances_readName.bind fun _ =>
      advances_readU32.bind fun _ => advances_readU32.bind fun _ => advances_readU32.bind fun _ =>
        advances_readU32.bind fun _ => advances_readU32.bind fun _ => .pure _
  case h_7 => exact advances_readU16.bind fun _ => advances_readName.bind fun _ => .pure _
  case h_8 => exact (advances_readTxt _).bind fun _ => .pure _
  case h_9 =>
    exact advances_readU16.bind fun _ => advances_readU16.bind fun _ =>
      advances_readU16.bind fun _ => advances_readName.bind fun _ => .pure _
  all_goals exact (advances_readBytes _).bind fun _ => .pure _

theorem setPosition_eq_ok_iff {r r' : Reader} {pos : Nat} :
    setPosition pos r = .ok ((), r') ↔ pos ≤ r.buf.length ∧ r' = ⟨r.buf, pos⟩ := by
  unfold setPosition
  split_ifs with h
  · simp [h]
  · simp [Nat.le_of_not_lt h, eq_comm]

theorem advances_rdata (rtype : RecordType) (rdlength : Nat) :
    Advances (Rdata.decode rtype rdlength) := by
  intro r rd r' h hr
  unfold Rdata.decode at h
  simp only [Except.bind_eq_ok_iff, Prod.exists] at h
  obtain ⟨rd', r₁, h₁, h⟩ := h
  obtain ⟨hbuf, hle, hend⟩ := advances_decodeFields _ _ _ h₁ hr
  split_ifs at h
  · simp only [Except.bind_eq_ok_iff, Prod.exists] at h
    obtain ⟨⟨⟩, r₂, h₂, h⟩ := h
    cases h
    obtain ⟨hpos, rfl⟩ := setPosition_eq_ok_iff.mp h₂
    exact ⟨hbuf, Nat.le_add_right _ _, hbuf ▸ hpos⟩
  · cases h
    exact ⟨hbuf, hle, hend⟩

theorem advances_record : Advances ResourceRecord.decode :=
  advances_readName.bind fun _ => advances_readU16.bind fun _ => advances_readU16.bind fun _ =>
    advances_readU32.bind fun _ => advances_readU16.bind fun _ => (advances_rdata _ _).bind fun _ =>
      .pure _

theorem advances_question : Advances Question.decode :=
  advances_readName.bind fun _ => advances_readU16.bind fun _ => advances_readU16.bind fun _ =>
    .pure _

theorem advances_header : Advances Header.decode :=
  advances_readU16.bind fun _ => advances_readU8.bind fun _ => advances_readU8.bind fun _ =>
    advances_readU16.bind fun _ => advances_readU16.bind fun _ => advances_readU16.bind fun _ =>
      advances_readU16.bind fun _ => .pure _

theorem Advances.readMany (hd : Advances d) (n : Nat) : Advances (readMany d n) := by
  induction n with
  | zero => exact .pure _
  | succ n ih => exact hd.bind fun _ => ih.bind fun _ => .pure _

theorem advances_message : Advances Message.read :=
  advances_header.bind fun _ => (advances_question.readMany _).bind fun _ =>
    (advances_record.readMany _).bind fun _ => (advances_record.readMany _).bind fun _ =>
      (advances_record.readMany _).bind fun _ => .pure _

end

/-- The loop that reads a name ends from every state, within turns that the length of the message
bounds, and it reads a name that stands in the message. -/
theorem readName_ends (buf : Bytes) :
    (∀ s, ∃ n ≤ 257 * (buf.length + 1), (within (nameStep buf) n s).isSome = true) ∧
    (∀ pos n r, readName ⟨buf, pos⟩ = .ok (n, r) →
      r.buf = buf ∧ NameAt buf pos n.labels r.pos ∧ pos < r.pos ∧ r.pos ≤ buf.length ∧
      wireLength n.labels ≤ 255 ∧
      ∀ l ∈ n.labels, 1 ≤ l.length ∧ l.length ≤ 63 ∧ l <:+: buf) ∧
    (∀ stop s, (within (txtStep stop) (stop - s.1.pos + 1) s).isSome = true) ∧
    ∀ m r, Message.read (.new buf) = .ok (m, r) → r.buf = buf ∧ r.pos ≤ buf.length := by
  refine ⟨fun s => ⟨nameSize buf s + 1, ?_, ?_⟩, ?_, ?_, ?_⟩
  · have hfew : maxNameWire + 1 - s.wireLen ≤ 256 := Nat.sub_le _ _
    have hmul := Nat.mul_le_mul_right (buf.length + 1) hfew
    have hmin := Nat.min_le_right s.pos buf.length
    unfold nameSize
    omega
  · exact isSome_within (nameStep_decreases buf) (Nat.lt_succ_self _)
  · intro pos n r h
    obtain ⟨hbuf, hname⟩ := readName_eq_ok_iff.mp h
    refine ⟨hbuf, hname, hname.lt_stop, hname.stop_le, n.wireLength_le, fun l hl => ?_⟩
    obtain ⟨hone, hmax⟩ := hname.label_length l hl
    exact ⟨hone, hmax, hname.isInfix l hl⟩
  · exact fun stop s => isSome_within (txtStep_decreases stop) (Nat.lt_succ_self _)
  · intro m r h
    obtain ⟨hbuf, -, hend⟩ := advances_message h (Nat.zero_le _)
    exact ⟨hbuf, hend⟩

end CaveHome.Dns
