import CaveHome.Mqtt.CodecRoundTrip
import CaveHome.Lib.Framing
import Mathlib.Data.List.Induction

/-!
# Framing on the two transports

Over TCP a packet is read byte by byte: the header, the length, then as many bytes as the length
says.  Over WebSocket the messages are appended to a buffer, and the packets at its front are
drained; there an underflow of the decoder means that more bytes are needed.

The decoder also reports an underflow when a field runs past the end of a complete body.  The buffer
then waits for ever, while TCP fails.  And when the buffer fails, the packets drained before the
failure in the same call are lost.  The file shows that the transports agree exactly when neither
happens.
-/

namespace CaveHome.Mqtt

/-! ## Reading from TCP -/

/-- The errors of the framing layer.  The codec's error becomes the text of the source's error. -/
inductive IoError
  | unexpectedEof
  | malformedRemainingLength
  | invalidData (e : Error)
  deriving DecidableEq

/-- Why a read has no result: more bytes are awaited, or it failed. -/
inductive Stop
  | pending
  | failed (e : IoError)
  deriving DecidableEq

/-- The end of the bytes that have arrived: the end of the stream, or just not more yet. -/
def starved (eof : Bool) : Stop := if eof then .failed .unexpectedEof else .pending

def readExact (eof : Bool) (n : Nat) : Decoder Stop Bytes := fun stream =>
  if stream.length < n then .error (starved eof) else .ok (stream.take n, stream.drop n)

/-- Read the remaining length, one byte after the other, and keep the bytes read in the frame. -/
def readRemaining (eof : Bool) (multiplier remaining : Nat) (frame : Bytes) :
    Decoder Stop (Nat × Bytes)
  | [] => .error (starved eof)
  | b :: stream =>
    let frame := frame ++ [b]
    let remaining := remaining + b.toNat % 128 * multiplier
    if b.toNat < 128 then .ok ((remaining, frame), stream)
    else if multiplier * 128 > 128 * 128 * 128 then .error (.failed .malformedRemainingLength)
    else readRemaining eof (multiplier * 128) remaining frame stream

/-- Read one packet; nothing at a clean end of the stream. -/
def readPacket (eof : Bool) : Decoder Stop (Option PacketV5)
  | [] => if eof then .ok (none, []) else .error .pending
  | first :: stream => (do
    let (remaining, frame) ← readRemaining eof 1 0 [first]
    let body ← readExact eof remaining
    match decodeV5 (frame ++ body) with
    | .error e => throw (.failed (.invalidData e))
    | .ok (packet, _) => return some packet : Decoder Stop (Option PacketV5)) stream

/-- The packets a connection yields from the bytes that have arrived, and whether it failed.  A
packet has a byte at least, so that the rounds are bounded by the bytes. -/
def readAll : Nat → Bytes → List PacketV5 × Bool
  | 0, _ => ([], false)
  | fuel + 1, stream =>
    match readPacket false stream with
    | .ok (some packet, rest) =>
      let (packets, failed) := readAll fuel rest
      (packet :: packets, failed)
    | .ok (none, _) | .error .pending => ([], false)
    | .error (.failed _) => ([], true)

def tcp (stream : Bytes) : List PacketV5 × Bool := readAll (stream.length + 1) stream

/-! ## Draining a buffer -/

def drainLoop : Nat → Bytes → List PacketV5 → Except IoError (List PacketV5) × Bytes
  | 0, buf, out => (.ok out, buf)
  | fuel + 1, buf, out =>
    match decodeV5 buf with
    | .ok (packet, used) => drainLoop fuel (buf.drop used) (out ++ [packet])
    | .error (.underflow _) => (.ok out, buf)
    | .error e => (.error (.invalidData e), buf)

/-- Decode the packets at the front of a buffer; returns them and the buffer without them. -/
def drainPackets (buf : Bytes) : Except IoError (List PacketV5) × Bytes :=
  drainLoop (buf.length + 1) buf []

/-- A WebSocket connection: its buffer, the packets it has yielded, and whether it failed. -/
structure WsState where
  buf : Bytes
  packets : List PacketV5
  failed : Bool
  deriving DecidableEq

/-- Append a message to the buffer and drain it; a connection that failed is closed. -/
def WsState.feed (s : WsState) (chunk : Bytes) : WsState :=
  if s.failed then s
  else match drainPackets (s.buf ++ chunk) with
    | (.ok packets, buf) => { s with buf, packets := s.packets ++ packets }
    | (.error _, buf) => { s with buf, failed := true }

/-- A connection after some messages. -/
def ws (chunks : List Bytes) : WsState := chunks.foldl WsState.feed ⟨[], [], false⟩

/-- The two transports yield the same packets of a stream and fail on the same streams. -/
def Agree (chunks : List Bytes) : Prop :=
  (ws chunks).packets = (tcp chunks.flatten).1 ∧ (ws chunks).failed = (tcp chunks.flatten).2

/-! ## Frames -/

/-- The frame at the front of a stream: its length, and its packet or why it is rejected.  A
remaining length of more than four bytes is rejected as soon as the fourth has arrived. -/
def look : Bytes → Option (Nat × Except Error PacketV5)
  | [] => none
  | header :: tail =>
    match decodeVarInt tail with
    | .error .varIntTooLong => some (5, .error .varIntTooLong)
    | .error _ => none
    | .ok (v, n) =>
      if tail.length < n + v.toNat then none
      else some (1 + n + v.toNat,
        (decodeBody (header >>> 4) (header &&& 0x0f) ((tail.drop n).take v.toNat)).map Prod.fst)

theorem varIntLoop_take {left : Nat} {input : Bytes} {value multiplier i v n : Nat}
    (h : varIntLoop left input value multiplier i = some (v, n)) (y : Bytes) :
    varIntLoop left (input.take (n - i) ++ y) value multiplier i = some (v, n) := by
  induction left generalizing input value multiplier i with
  | zero => cases h
  | succ left ih =>
    cases input with
    | nil => cases h
    | cons b input =>
      obtain ⟨-, k, -, rfl, hk, -⟩ := varIntLoop_eq_some h
      obtain ⟨k, rfl⟩ : ∃ m, k = m + 1 := ⟨k - 1, by omega⟩
      rw [Nat.add_sub_cancel_left, List.take_succ_cons]
      simp only [varIntLoop, List.cons_append] at h ⊢
      split_ifs at h ⊢ with hb
      · exact h
      · have hsub : i + (k + 1) - (i + 1) = k := by omega
        have := ih h
        rwa [hsub] at this

theorem varIntLoop_eq_none_take {left : Nat} {input : Bytes} {value multiplier i : Nat}
    (hlen : left ≤ input.length) (h : varIntLoop left input value multiplier i = none)
    (y : Bytes) : varIntLoop left (input.take left ++ y) value multiplier i = none := by
  induction left generalizing input value multiplier i with
  | zero => rfl
  | succ left ih =>
    cases input with
    | nil => simp at hlen
    | cons b input =>
      rw [List.take_succ_cons]
      simp only [varIntLoop, List.cons_append] at h ⊢
      split_ifs at h ⊢
      exact ih (by simpa using hlen) h

theorem decodeVarInt_take {input : Bytes} {v : UInt32} {n : Nat}
    (h : decodeVarInt input = .ok (v, n)) (y : Bytes) :
    decodeVarInt (input.take n ++ y) = .ok (v, n) := by
  unfold decodeVarInt at h ⊢
  split at h
  · rename_i value used hloop
    obtain ⟨rfl, rfl⟩ := Prod.mk.inj (Except.ok.inj h)
    have := varIntLoop_take hloop y
    rw [Nat.sub_zero] at this
    rw [this]
  · split_ifs at h

theorem decodeVarInt_tooLong_take {input : Bytes}
    (h : decodeVarInt input = .error .varIntTooLong) :
    4 ≤ input.length ∧ ∀ y, decodeVarInt (input.take 4 ++ y) = .error .varIntTooLong := by
  unfold decodeVarInt at h
  split at h
  · cases h
  · rename_i hloop
    split_ifs at h with hlen
    · cases h
    refine ⟨by omega, fun y => ?_⟩
    have hlong : ¬ (input.take 4 ++ y).length < 4 := by
      rw [List.length_append, List.length_take]
      omega
    rw [decodeVarInt, varIntLoop_eq_none_take (by omega) hloop]
    exact if_neg hlong

theorem look_eq_some {x : Bytes} {n : Nat} {r : Except Error PacketV5}
    (h : look x = some (n, r)) :
    ∃ header tail, x = header :: tail ∧
      ((decodeVarInt tail = .error .varIntTooLong ∧ n = 5 ∧ r = .error .varIntTooLong) ∨
        ∃ v k, decodeVarInt tail = .ok (v, k) ∧ k + v.toNat ≤ tail.length ∧
          n = 1 + k + v.toNat ∧ r = (decodeBody (header >>> 4) (header &&& 0x0f)
            ((tail.drop k).take v.toNat)).map Prod.fst) := by
  cases x with
  | nil => cases h
  | cons header tail =>
    refine ⟨header, tail, rfl, ?_⟩
    rw [look] at h
    split at h
    · rename_i hv
      obtain ⟨rfl, rfl⟩ := Prod.mk.inj (Option.some.inj h)
      exact Or.inl ⟨hv, rfl, rfl⟩
    · cases h
    · rename_i v k hv
      split_ifs at h with hlen
      obtain ⟨rfl, rfl⟩ := Prod.mk.inj (Option.some.inj h)
      exact Or.inr ⟨v, k, hv, by omega, rfl, rfl⟩

theorem local_look : Framing.Local look where
  pos h := by
    obtain ⟨header, tail, rfl, ⟨-, rfl, -⟩ | ⟨v, k, -, -, rfl, -⟩⟩ := look_eq_some h <;> omega
  le h := by
    obtain ⟨header, tail, rfl, ⟨hv, rfl, -⟩ | ⟨v, k, -, hle, rfl, -⟩⟩ := look_eq_some h
    · have := (decodeVarInt_tooLong_take hv).1
      rw [List.length_cons]
      omega
    · rw [List.length_cons]
      omega
  take h y := by
    obtain ⟨header, tail, rfl, ⟨hv, rfl, rfl⟩ | ⟨v, k, hv, hle, rfl, rfl⟩⟩ := look_eq_some h
    · simp [look, (decodeVarInt_tooLong_take hv).2 y]
    · have htake : (header :: tail).take (1 + k + v.toNat) ++ y =
          header :: (tail.take k ++ ((tail.drop k).take v.toNat ++ y)) := by
        rw [show 1 + k + v.toNat = (k + v.toNat) + 1 by omega, List.take_succ_cons,
          List.take_add, List.cons_append, List.append_assoc]
      have hk : (tail.take k).length = k := by
        rw [List.length_take]
        omega
      have hv' := decodeVarInt_take hv ((tail.drop k).take v.toNat ++ y)
      have hbody : ((tail.drop k).take v.toNat).length = v.toNat := by
        rw [List.length_take, List.length_drop]
        omega
      have hlong : ¬ (tail.take k ++ ((tail.drop k).take v.toNat ++ y)).length < k + v.toNat := by
        simp only [List.length_append, hk, hbody]
        omega
      have hslice : (((tail.take k ++ ((tail.drop k).take v.toNat ++ y)).drop k).take v.toNat) =
          (tail.drop k).take v.toNat := by
        rw [List.drop_append_of_le_length hk.ge, List.drop_eq_nil_of_le hk.le, List.nil_append,
          List.take_append_of_le_length hbody.ge, List.take_of_length_le hbody.le]
      rw [htake]
      simp only [look, hv', if_neg hlong, hslice]

/-! ## The two transports on frames -/

theorem decodeV5_of_look {x : Bytes} {n : Nat} {r : Except Error PacketV5}
    (h : look x = some (n, r)) : decodeV5 x = r.map fun p => (p, n) := by
  obtain ⟨header, tail, rfl, ⟨hv, rfl, rfl⟩ | ⟨v, k, hv, hle, rfl, rfl⟩⟩ := look_eq_some h
  · simp [decodeV5, hv, bind, Except.bind, Except.map]
  · rw [decodeV5_of_complete hv hle]
    cases decodeBody (header >>> 4) (header &&& 0x0f) ((tail.drop k).take v.toNat) <;> rfl

theorem decodeVarInt_error {input : Bytes} {e : Error} (h : decodeVarInt input = .error e) :
    e = .varIntTooLong ∨ ∃ needed, e = .underflow needed := by
  unfold decodeVarInt at h
  split at h
  · cases h
  · split_ifs at h
    · exact Or.inr ⟨_, (Except.error.inj h).symm⟩
    · exact Or.inl (Except.error.inj h).symm

theorem decodeV5_of_look_none {x : Bytes} (h : look x = none) :
    ∃ needed, decodeV5 x = .error (.underflow needed) := by
  cases x with
  | nil => exact ⟨2, rfl⟩
  | cons header tail =>
    rw [look] at h
    cases hv : decodeVarInt tail with
    | error e =>
      rcases decodeVarInt_error hv with rfl | ⟨needed, rfl⟩
      · simp [hv] at h
      · exact ⟨needed, by simp [decodeV5, hv, bind, Except.bind]⟩
    | ok r =>
      obtain ⟨v, k⟩ := r
      simp only [hv, ite_eq_left_iff, reduceCtorEq, imp_false, not_not] at h
      have hshort : (header :: tail).length < 1 + k + v.toNat := by
        rw [List.length_cons]
        omega
      refine ⟨1 + k + v.toNat - (header :: tail).length, ?_⟩
      simp only [decodeV5, hv, bind, Except.bind]
      rw [if_pos hshort]
      rfl

theorem varIntLoop_of_decodeVarInt {input : Bytes} {v : UInt32} {n : Nat}
    (h : decodeVarInt input = .ok (v, n)) : varIntLoop 4 input 0 1 0 = some (v.toNat, n) := by
  unfold decodeVarInt at h
  split at h
  · rename_i value used hloop
    obtain ⟨rfl, rfl⟩ := Prod.mk.inj (Except.ok.inj h)
    obtain ⟨x, k, rfl, -, -, hk4, -, hx⟩ := varIntLoop_eq_some hloop
    have hbound : 128 ^ k ≤ 128 ^ 4 := Nat.pow_le_pow_right (by decide) hk4
    rw [hloop, UInt32.toNat_ofNat', Nat.mod_eq_of_lt (by omega)]
  · split_ifs at h

theorem readRemaining_of_some (left j : Nat) (hj : left + j = 4) {stream : Bytes}
    {value i v n : Nat} (h : varIntLoop left stream value (128 ^ j) i = some (v, n))
    (frame : Bytes) :
    readRemaining false (128 ^ j) value frame stream =
      .ok ((v, frame ++ stream.take (n - i)), stream.drop (n - i)) := by
  induction left generalizing j stream value i frame with
  | zero => cases h
  | succ left ih =>
    cases stream with
    | nil => cases h
    | cons b stream =>
      simp only [varIntLoop, readRemaining] at h ⊢
      split_ifs at h ⊢ with hb hm
      · obtain ⟨rfl, rfl⟩ := Prod.mk.inj (Option.some.inj h)
        simp
      · -- the check of the multiplier fires only after the fourth byte
        obtain ⟨-, k, -, -, hk, hkl, -⟩ := varIntLoop_eq_some h
        have hpow : 128 ^ (j + 1) ≤ 128 ^ 3 := Nat.pow_le_pow_right (by decide) (by omega)
        rw [pow_succ] at hpow
        omega
      · obtain ⟨-, k, -, rfl, hk, -⟩ := varIntLoop_eq_some h
        rw [← pow_succ] at h ⊢
        rw [ih (j + 1) (by omega) h, show i + 1 + k - (i + 1) = k by omega,
          show i + 1 + k - i = k + 1 by omega, List.take_succ_cons, List.drop_succ_cons,
          List.append_assoc]
        rfl

theorem readRemaining_of_none (left j : Nat) (hj : left + 1 + j = 4) {stream : Bytes}
    {value i : Nat} (h : varIntLoop (left + 1) stream value (128 ^ j) i = none) (frame : Bytes) :
    readRemaining false (128 ^ j) value frame stream =
      .error (if stream.length < left + 1 then .pending
        else .failed .malformedRemainingLength) := by
  induction left generalizing j stream value i frame with
  | zero =>
    cases stream with
    | nil => rfl
    | cons b stream =>
      obtain rfl : j = 3 := by omega
      simp only [varIntLoop] at h
      split_ifs at h with hb
      simp only [readRemaining]
      rw [if_neg hb, if_pos (by decide), if_neg (by simp)]
  | succ left ih =>
    cases stream with
    | nil => rfl
    | cons b stream =>
      rw [varIntLoop] at h
      split_ifs at h with hb
      have hpow : 128 ^ (j + 1) ≤ 128 ^ 3 := Nat.pow_le_pow_right (by decide) (by omega)
      rw [pow_succ] at hpow
      simp only [readRemaining]
      rw [if_neg hb, if_neg (by omega), ← pow_succ, ih (j + 1) (by omega) (by rwa [pow_succ]),
        List.length_cons]
      congr 1
      exact if_congr (by omega) rfl rfl

theorem readPacket_of_look_none {x : Bytes} (h : look x = none) :
    readPacket false x = .error .pending := by
  cases x with
  | nil => rfl
  | cons header tail =>
    rw [look] at h
    cases hv : decodeVarInt tail with
    | error e =>
      have hloop : varIntLoop 4 tail 0 1 0 = none ∧ tail.length < 4 := by
        rw [hv] at h
        unfold decodeVarInt at hv
        split at hv
        · cases hv
        · rename_i hloop
          split_ifs at hv with hlen
          · exact ⟨hloop, hlen⟩
          · obtain rfl := Except.error.inj hv
            cases h
      have hread := readRemaining_of_none 3 0 rfl hloop.1 [header]
      rw [if_pos hloop.2, pow_zero] at hread
      change (readRemaining false 1 0 [header] tail).bind _ = _
      rw [hread]
      rfl
    | ok r =>
      obtain ⟨v, k⟩ := r
      simp only [hv, ite_eq_left_iff, reduceCtorEq, imp_false, not_not] at h
      have hread := readRemaining_of_some 4 0 rfl (varIntLoop_of_decodeVarInt hv) [header]
      have hk := (decodeVarInt_eq_ok hv).2.2.1
      have hshort : (tail.drop k).length < v.toNat := by
        rw [List.length_drop]
        omega
      refine (Decoder.bind_of_ok hread).trans ?_
      change (readExact false v.toNat (tail.drop k)).bind _ = _
      rw [readExact, if_pos hshort]
      rfl

theorem readPacket_of_look {x : Bytes} {n : Nat} {r : Except Error PacketV5}
    (h : look x = some (n, r)) :
    (∀ p, r = .ok p → readPacket false x = .ok (some p, x.drop n)) ∧
      ∀ e, r = .error e → ∃ e', readPacket false x = .error (.failed e') := by
  have hframe := decodeV5_of_look (local_look.take h [])
  rw [List.append_nil] at hframe
  obtain ⟨header, tail, rfl, ⟨hv, rfl, rfl⟩ | ⟨v, k, hv, hle, rfl, hr⟩⟩ := look_eq_some h
  · refine ⟨fun p hp => by simp at hp, fun e _ => ⟨.malformedRemainingLength, ?_⟩⟩
    have hloop : varIntLoop 4 tail 0 1 0 = none := by
      unfold decodeVarInt at hv
      split at hv
      · cases hv
      · assumption
    have hlen := (decodeVarInt_tooLong_take hv).1
    have hread := readRemaining_of_none 3 0 rfl hloop [header]
    rw [if_neg (by omega), pow_zero] at hread
    change (readRemaining false 1 0 [header] tail).bind _ = _
    rw [hread]
    rfl
  · have hread := readRemaining_of_some 4 0 rfl (varIntLoop_of_decodeVarInt hv) [header]
    have hlong : ¬ (tail.drop k).length < v.toNat := by
      rw [List.length_drop]
      omega
    have hbody : readExact false v.toNat (tail.drop k) =
        .ok ((tail.drop k).take v.toNat, (tail.drop k).drop v.toNat) := if_neg hlong
    have hbytes : [header] ++ tail.take k ++ (tail.drop k).take v.toNat =
        (header :: tail).take (1 + k + v.toNat) := by
      rw [show 1 + k + v.toNat = (k + v.toNat) + 1 by omega, List.take_succ_cons, List.take_add]
      rfl
    have hrest : (tail.drop k).drop v.toNat = (header :: tail).drop (1 + k + v.toNat) := by
      rw [show 1 + k + v.toNat = (k + v.toNat) + 1 by omega, List.drop_succ_cons, List.drop_drop]
    have hrun : readPacket false (header :: tail) = (match r.map fun p => (p, 1 + k + v.toNat) with
        | .error e => (throw (Stop.failed (.invalidData e)) : Decoder Stop (Option PacketV5))
        | .ok (packet, _) => return some packet) ((header :: tail).drop (1 + k + v.toNat)) := by
      refine (Decoder.bind_of_ok hread).trans ((Decoder.bind_of_ok hbody).trans ?_)
      rw [Nat.sub_zero, hbytes, hframe, hrest]
    refine ⟨?_, ?_⟩
    · rintro p rfl
      exact hrun
    · rintro e rfl
      exact ⟨.invalidData e, hrun⟩

theorem tcp_eq (x : Bytes) :
    tcp x = ((Framing.frames look x).1, (look (Framing.frames look x).2).isSome) := by
  have hall : ∀ fuel x, x.length < fuel → readAll fuel x =
      ((Framing.frames look x).1, (look (Framing.frames look x).2).isSome) := by
    intro fuel
    induction fuel with
    | zero => exact fun x hx => absurd hx (Nat.not_lt_zero _)
    | succ fuel ih =>
      intro x hx
      cases hl : look x with
      | none =>
        rw [Framing.frames_of_none hl]
        simp [readAll, readPacket_of_look_none hl, hl]
      | some r =>
        obtain ⟨n, r⟩ := r
        cases r with
        | error e =>
          obtain ⟨e', he'⟩ := (readPacket_of_look hl).2 e rfl
          rw [Framing.frames_of_error hl]
          simp [readAll, he', hl]
        | ok p =>
          have hpos := local_look.pos hl
          have hshort : (x.drop n).length < fuel := by
            have := local_look.le hl
            rw [List.length_drop]
            omega
          simp only [readAll, (readPacket_of_look hl).1 p rfl, ih _ hshort,
            Framing.frames_of_ok local_look hl]
  exact hall _ x (Nat.lt_succ_self _)

/-! ## The buffer -/

def Error.isUnderflow : Error → Bool
  | .underflow _ => true
  | _ => false

theorem Error.isUnderflow_iff {e : Error} :
    e.isUnderflow = true ↔ ∃ needed, e = .underflow needed := by
  cases e <;> simp [Error.isUnderflow]

/-- The length of a rejected frame at the front of a stream, when the rejection is not taken for
missing bytes. -/
def rejected (x : Bytes) : Option Nat :=
  match look x with
  | some (n, .error e) => if e.isUnderflow then none else some n
  | _ => none

theorem rejected_eq_some_iff {x : Bytes} {n : Nat} :
    rejected x = some n ↔ ∃ e, look x = some (n, .error e) ∧ e.isUnderflow = false := by
  unfold rejected
  split
  · rename_i m e hl
    cases he : e.isUnderflow with
    | true =>
      simp only [if_true, reduceCtorEq, false_iff, not_exists, not_and]
      rintro e' h
      obtain ⟨-, h⟩ := Prod.mk.inj (Option.some.inj (hl.symm.trans h))
      rw [← Except.error.inj h, he]
      simp
    | false =>
      simp only [Bool.false_eq_true, if_false, Option.some.injEq]
      constructor
      · rintro rfl
        exact ⟨e, hl, he⟩
      · rintro ⟨e', h, -⟩
        exact (Prod.mk.inj (Option.some.inj (hl.symm.trans h))).1
  · rename_i hno
    simp only [reduceCtorEq, false_iff, not_exists, not_and]
    exact fun e h => absurd h (hno n e)

theorem drainLoop_eq {fuel : Nat} {x : Bytes} (hx : x.length < fuel) (out : List PacketV5) :
    (rejected (Framing.frames look x).2 = none → drainLoop fuel x out =
      (.ok (out ++ (Framing.frames look x).1), (Framing.frames look x).2)) ∧
    ∀ n, rejected (Framing.frames look x).2 = some n →
      ∃ e, drainLoop fuel x out = (.error e, (Framing.frames look x).2) := by
  induction fuel generalizing x out with
  | zero => exact absurd hx (Nat.not_lt_zero _)
  | succ fuel ih =>
    cases hl : look x with
    | none =>
      obtain ⟨needed, hd⟩ := decodeV5_of_look_none hl
      rw [Framing.frames_of_none hl]
      refine ⟨fun _ => by simp [drainLoop, hd], fun n h => ?_⟩
      simp [rejected, hl] at h
    | some r =>
      obtain ⟨n, r⟩ := r
      have hd := decodeV5_of_look hl
      cases r with
      | error e =>
        rw [Framing.frames_of_error hl]
        cases e with
        | underflow needed =>
          refine ⟨fun _ => by simp [drainLoop, hd, Except.map], fun n h => ?_⟩
          simp [rejected, hl, Error.isUnderflow] at h
        | _ =>
          refine ⟨fun h => ?_, fun n h => ⟨_, by simp only [drainLoop, hd, Except.map]; rfl⟩⟩
          simp [rejected, hl, Error.isUnderflow] at h
      | ok p =>
        have hpos := local_look.pos hl
        have hshort : (x.drop n).length < fuel := by
          have := local_look.le hl
          rw [List.length_drop]
          omega
        obtain ⟨h₁, h₂⟩ := ih hshort (out ++ [p])
        rw [Framing.frames_of_ok local_look hl]
        have hstep : drainLoop (fuel + 1) x out = drainLoop fuel (x.drop n) (out ++ [p]) := by
          simp only [drainLoop, hd, Except.map]
        refine ⟨fun h => ?_, fun m h => ?_⟩
        · rw [hstep, h₁ h, List.append_assoc]
          rfl
        · rw [hstep]
          exact h₂ m h

theorem feed_of_rejected_none {s : WsState} (hs : s.failed = false) {chunk : Bytes}
    (h : rejected (Framing.frames look (s.buf ++ chunk)).2 = none) :
    s.feed chunk = ⟨(Framing.frames look (s.buf ++ chunk)).2,
      s.packets ++ (Framing.frames look (s.buf ++ chunk)).1, false⟩ := by
  have hdrain : drainPackets (s.buf ++ chunk) = _ := (drainLoop_eq (Nat.lt_succ_self _) []).1 h
  simp [WsState.feed, hs, hdrain]

theorem feed_of_rejected_some {s : WsState} (hs : s.failed = false) {chunk : Bytes} {n : Nat}
    (h : rejected (Framing.frames look (s.buf ++ chunk)).2 = some n) :
    (s.feed chunk).failed = true ∧ (s.feed chunk).packets = s.packets := by
  obtain ⟨e, he⟩ := (drainLoop_eq (Nat.lt_succ_self _) []).2 n h
  have hdrain : drainPackets (s.buf ++ chunk) = _ := he
  simp [WsState.feed, hs, hdrain]

/-- A message ends within the `n` bytes from position `good` of the stream, or right before
them. -/
def Boundary (chunks : List Bytes) (good n : Nat) : Prop :=
  ∃ k, good ≤ (chunks.take k).flatten.length ∧ (chunks.take k).flatten.length < good + n

theorem boundary_concat {chunks : List Bytes} {chunk : Bytes} {good n : Nat}
    (h : good + n ≤ (chunks ++ [chunk]).flatten.length) :
    Boundary (chunks ++ [chunk]) good n ↔ Boundary chunks good n := by
  constructor
  · rintro ⟨k, h₁, h₂⟩
    by_cases hk : k ≤ chunks.length
    · rw [List.take_append_of_le_length hk] at h₁ h₂
      exact ⟨k, h₁, h₂⟩
    · rw [List.take_of_length_le (by simp; omega)] at h₂
      omega
  · rintro ⟨k, h₁, h₂⟩
    refine ⟨min k chunks.length, ?_⟩
    have htake : (chunks ++ [chunk]).take (min k chunks.length) = chunks.take k := by
      rw [List.take_append_of_le_length (min_le_right _ _)]
      exact List.take_eq_take_min.symm
    rw [htake]
    exact ⟨h₁, h₂⟩

theorem length_flatten_take_le (chunks : List Bytes) (k : Nat) :
    (chunks.take k).flatten.length ≤ chunks.flatten.length := by
  conv_rhs => rw [← List.take_append_drop k chunks, List.flatten_append, List.length_append]
  exact Nat.le_add_right _ _

theorem ws_spec (chunks : List Bytes) :
    (rejected (Framing.frames look chunks.flatten).2 = none → ws chunks =
      ⟨(Framing.frames look chunks.flatten).2, (Framing.frames look chunks.flatten).1, false⟩) ∧
    ∀ n, rejected (Framing.frames look chunks.flatten).2 = some n →
      (ws chunks).failed = true ∧ ((ws chunks).packets = (Framing.frames look chunks.flatten).1 ↔
        Boundary chunks
          (chunks.flatten.length - (Framing.frames look chunks.flatten).2.length) n) := by
  induction chunks using List.reverseRecOn with
  | nil => exact ⟨fun _ => rfl, fun n h => by cases h⟩
  | append_singleton chunks chunk ih =>
    obtain ⟨hsoft, hhard⟩ := ih
    have hws : ws (chunks ++ [chunk]) = (ws chunks).feed chunk := by
      simp [ws]
    have hflat : (chunks ++ [chunk]).flatten = chunks.flatten ++ chunk := by simp
    have hle := Framing.length_rest_le local_look chunks.flatten
    cases hr : rejected (Framing.frames look chunks.flatten).2 with
    | some n =>
      -- the rejected frame was complete before this message
      obtain ⟨hfailed, hpackets⟩ := hhard n hr
      obtain ⟨e, hl, he⟩ := rejected_eq_some_iff.1 hr
      have hframes := Framing.frames_append_of_error local_look hl chunk
      have hsame : ws (chunks ++ [chunk]) = ws chunks := by
        rw [hws, WsState.feed, if_pos hfailed]
      have hrej : rejected ((Framing.frames look chunks.flatten).2 ++ chunk) = some n :=
        rejected_eq_some_iff.2 ⟨e, Framing.look_append local_look hl chunk, he⟩
      have hn := local_look.le hl
      rw [hflat, hframes, hsame]
      refine ⟨fun h => ?_, fun m h => ⟨hfailed, ?_⟩⟩
      · rw [hrej] at h
        cases h
      · obtain rfl := Option.some.inj (hrej.symm.trans h)
        rw [boundary_concat, hpackets]
        · simp only [List.length_append, Nat.add_sub_add_right]
        · simp only [hflat, List.length_append]
          omega
    | none =>
      have hstate := hsoft hr
      have hnot : (ws chunks).failed = false := by rw [hstate]
      have hframes := Framing.frames_append local_look chunks.flatten chunk
      have hbuf : (ws chunks).buf = (Framing.frames look chunks.flatten).2 := by rw [hstate]
      have hpk : (ws chunks).packets = (Framing.frames look chunks.flatten).1 := by rw [hstate]
      rw [hflat, hws]
      refine ⟨fun h => ?_, fun n h => ?_⟩
      · rw [hframes] at h ⊢
        rw [feed_of_rejected_none hnot (by rw [hbuf]; exact h), hbuf, hpk]
      · have h' : rejected (Framing.frames look ((ws chunks).buf ++ chunk)).2 = some n := by
          rw [hbuf]
          rw [hframes] at h
          exact h
        obtain ⟨hfailed, hsame⟩ := feed_of_rejected_some hnot h'
        refine ⟨hfailed, ?_⟩
        rw [hsame, hpk]
        obtain ⟨e, hl, he⟩ := rejected_eq_some_iff.1 h
        have hn := local_look.le hl
        have hle' := Framing.length_rest_le local_look (chunks.flatten ++ chunk)
        rw [boundary_concat (by rw [hflat]; omega)]
        constructor
        · intro hnone
          -- no frame is completed by this message, so the last boundary lies in the rejected one
          rw [hframes] at hnone
          have hrest := Framing.rest_of_nil local_look (List.self_eq_append_right.1 hnone)
          rw [hframes, hrest] at hl ⊢
          refine ⟨chunks.length, ?_⟩
          rw [List.take_length]
          simp only [List.length_append, Nat.add_sub_add_right]
          refine ⟨Nat.sub_le _ _, ?_⟩
          by_contra hlong
          have hin := Framing.look_of_append local_look hl (by omega)
          rw [rejected_eq_some_iff.2 ⟨e, hin, he⟩] at hr
          cases hr
        · rintro ⟨k, hk, -⟩
          have hk' := length_flatten_take_le chunks k
          rw [Framing.frames_append_of_le local_look (by omega)]

/-! ## Agreement -/

/-- The stream has no rejected frame; or its first one is rejected for another reason than missing
bytes, and a message ends between the frames before it and its end. -/
def FramesAlike (chunks : List Bytes) : Prop :=
  match look (Framing.frames look chunks.flatten).2 with
  | some (n, .error e) => e.isUnderflow = false ∧ Boundary chunks
      (chunks.flatten.length - (Framing.frames look chunks.flatten).2.length) n
  | _ => True

instance (chunks : List Bytes) : Decidable (Agree chunks) := inferInstanceAs (Decidable (_ ∧ _))

theorem agree_iff (chunks : List Bytes) : Agree chunks ↔ FramesAlike chunks := by
  obtain ⟨hsoft, hhard⟩ := ws_spec chunks
  unfold Agree FramesAlike
  rw [tcp_eq]
  cases hl : look (Framing.frames look chunks.flatten).2 with
  | none =>
    have hnone : rejected (Framing.frames look chunks.flatten).2 = none := by simp [rejected, hl]
    rw [hsoft hnone]
    simp
  | some r =>
    obtain ⟨n, r⟩ := r
    cases r with
    | ok p => exact absurd hl (Framing.look_rest local_look _ _ _)
    | error e =>
      cases he : e.isUnderflow with
      | true =>
        have hnone : rejected (Framing.frames look chunks.flatten).2 = none := by
          simp [rejected, hl, he]
        rw [hsoft hnone]
        simp [he]
      | false =>
        obtain ⟨hfailed, hpackets⟩ := hhard n (rejected_eq_some_iff.2 ⟨e, hl, he⟩)
        simp [hfailed, hpackets, he]

theorem drains_iff {buf : Bytes} {n : Nat} {r : Except Error PacketV5}
    (hl : look buf = some (n, r)) :
    ((∃ e, (drainPackets buf).1 = .error e) ∨ (drainPackets buf).2.length < buf.length) ↔
      ∀ needed, r ≠ .error (.underflow needed) := by
  obtain ⟨hsoft, hhard⟩ := drainLoop_eq (Nat.lt_succ_self buf.length) []
  cases r with
  | ok p =>
    simp only [ne_eq, reduceCtorEq, not_false_eq_true, implies_true, iff_true]
    have hpos := local_look.pos hl
    have hle := local_look.le hl
    have hrest := Framing.length_rest_le local_look (buf.drop n)
    rw [List.length_drop] at hrest
    rw [Framing.frames_of_ok local_look hl] at hsoft hhard
    cases hrej : rejected (Framing.frames look (buf.drop n)).2 with
    | none =>
      right
      rw [drainPackets, hsoft hrej]
      dsimp only
      omega
    | some m =>
      obtain ⟨e, he⟩ := hhard m hrej
      exact Or.inl ⟨e, by rw [drainPackets, he]⟩
  | error e =>
    rw [Framing.frames_of_error hl] at hsoft hhard
    cases he : e.isUnderflow with
    | true =>
      obtain ⟨needed, rfl⟩ := Error.isUnderflow_iff.1 he
      have hdrain : drainPackets buf = _ := hsoft (by simp [rejected, hl, he])
      simp [hdrain]
    | false =>
      obtain ⟨e', he'⟩ := hhard n (rejected_eq_some_iff.2 ⟨e, hl, he⟩)
      refine ⟨fun _ needed h => ?_, fun _ => Or.inl ⟨e', by rw [drainPackets, he']⟩⟩
      rw [Except.error.inj h] at he
      cases he

/-- On every stream and every way to cut it into messages, the two transports yield the same packets
and fail alike exactly when the stream has no rejected frame, or the first rejected frame is not
rejected with an underflow and some message ends after the frames before it and before its own end.
A buffer that starts with a complete frame is drained of it or fails exactly when the frame is not
rejected with an underflow. -/
theorem transports_agree_iff (chunks : List Bytes) (buf : Bytes) :
    (Agree chunks ↔ FramesAlike chunks) ∧
    ∀ (n : Nat) (r : Except Error PacketV5), look buf = some (n, r) →
      (((∃ e, (drainPackets buf).1 = .error e) ∨ (drainPackets buf).2.length < buf.length) ↔
        ∀ needed, r ≠ .error (.underflow needed)) := by
  refine ⟨agree_iff chunks, fun n r hl => ?_⟩
  exact drains_iff hl

/-- A PUBACK of one byte, whose packet id runs past the body: TCP fails and the buffer waits.  And a
PINGREQ with a packet of unknown type in one message: TCP yields the PINGREQ before it fails, and
the buffer does not. -/
theorem transports_disagree : ¬ Agree [[0x40, 0x01, 0x00]] ∧ ¬ Agree [[0xC0, 0x00, 0x00, 0x00]] := by
  decide

end CaveHome.Mqtt
