import CaveHome.Dns.Message
import CaveHome.Lib.Radix

/-!
# Reverse names

The name under `in-addr.arpa` or `ip6.arpa` that stands for an address, and the address that a name
stands for.  The octets of an IPv4 address are read as any unsigned number, so a plus sign or zeros
in front do no harm.
-/

namespace CaveHome.Dns

open Positional

inductive IpAddr
  | v4 (ip : Octets 4)
  | v6 (ip : Octets 16)
deriving DecidableEq

/-! ## Digits -/

/-- The decimal text of an octet. -/
def decimal (b : UInt8) : Bytes := (Nat.toDigits 10 b.toNat).map fun c => c.toNat.toUInt8

/-- The lower case hexadecimal digit of a nibble. -/
def hexNibble (v : UInt8) : UInt8 := if v < 10 then 0x30 + v else 0x61 + (v - 10)

def digitValue (c : UInt8) : Option ℕ :=
  if 0x30 ≤ c ∧ c ≤ 0x39 then some (c.toNat - 0x30) else none

/-- An unsigned number of eight bits in decimal. -/
def parseDigits (digits : Bytes) : Option UInt8 :=
  if digits = [] then none
  else
    (digits.mapM digitValue).bind fun values =>
      if read 10 values ≤ 255 then some (read 10 values).toUInt8 else none

/-- The same with a plus sign in front, perhaps.  What is not UTF-8 has no digits only either. -/
def parseU8 (label : Bytes) : Option UInt8 :=
  parseDigits (if label.head? = some 0x2B then label.tail else label)

/-- A label that is a single hexadecimal digit. -/
def nibbleValue (label : Bytes) : Option UInt8 :=
  match label with
  | [c] =>
    if 0x30 ≤ c ∧ c ≤ 0x39 then some (c - 0x30)
    else if 0x61 ≤ c ∧ c ≤ 0x66 then some (c - 0x61 + 10)
    else if 0x41 ≤ c ∧ c ≤ 0x46 then some (c - 0x41 + 10)
    else none
  | _ => none

/-! ## Names -/

def inAddrLabel : Bytes := [0x69, 0x6E, 0x2D, 0x61, 0x64, 0x64, 0x72]

def ip6Label : Bytes := [0x69, 0x70, 0x36]

def arpaLabel : Bytes := [0x61, 0x72, 0x70, 0x61]

/-- The labels of an octet: the low nibble first. -/
def nibbleLabels (b : UInt8) : List Bytes := [[hexNibble (b &&& 0x0F)], [hexNibble (b >>> 4)]]

def arpaLabels : IpAddr → List Bytes
  | .v4 ip => ip.bytes.reverse.map decimal ++ [inAddrLabel, arpaLabel]
  | .v6 ip => ip.bytes.reverse.flatMap nibbleLabels ++ [ip6Label, arpaLabel]

def toArpa (ip : IpAddr) : Name :=
  match Name.fromLabels (arpaLabels ip) with
  | .ok name => name
  | .error _ => Name.root

/-- The octets that pairs of labels stand for. -/
def nibbleOctets : List Bytes → Option Bytes
  | low :: high :: labels => do
    let l ← nibbleValue low
    let h ← nibbleValue high
    let bytes ← nibbleOctets labels
    some ((h <<< 4 ||| l) :: bytes)
  | _ => some []

/-- The octets of an address, the last one first. -/
def octets? (n : ℕ) (bytes : Bytes) : Option (Octets n) :=
  if h : bytes.reverse.length = n then some ⟨bytes.reverse, h⟩ else none

def fromArpa (name : Name) : Option IpAddr :=
  let labels := name.labels
  if labels.length = 6 ∧ eqIgnoreAsciiCase (labels.getD 4 []) inAddrLabel ∧
      eqIgnoreAsciiCase (labels.getD 5 []) arpaLabel then
    ((labels.take 4).mapM parseU8).bind fun bytes => (octets? 4 bytes).map .v4
  else if labels.length = 34 ∧ eqIgnoreAsciiCase (labels.getD 32 []) ip6Label ∧
      eqIgnoreAsciiCase (labels.getD 33 []) arpaLabel then
    (nibbleOctets (labels.take 32)).bind fun bytes => (octets? 16 bytes).map .v6
  else none

/-! ## Octets in decimal -/

def digitByte (d : ℕ) : UInt8 := (0x30 + d).toUInt8

theorem digitValue_digitByte {d : ℕ} (h : d < 10) : digitValue (digitByte d) = some d := by
  revert d
  decide

theorem eq_of_digitValue {c : UInt8} {d : ℕ} (h : digitValue c = some d) :
    d < 10 ∧ c = digitByte d := by
  unfold digitValue at h
  split at h
  next hc =>
    obtain ⟨hlow, hhigh⟩ := hc
    rw [UInt8.le_iff_toNat_le] at hlow hhigh
    simp only [UInt8.reduceToNat] at hlow hhigh
    obtain rfl := Option.some.inj h
    refine ⟨by omega, ?_⟩
    rw [digitByte, Nat.add_sub_cancel' hlow]
    exact UInt8.toNat_inj.mp (by rw [Nat.toUInt8_eq, UInt8.ofNat_toNat])
  next => cases h

theorem mapM_digitValue_iff {label : Bytes} {ds : List ℕ} :
    label.mapM digitValue = some ds ↔ (∀ d ∈ ds, d < 10) ∧ label = ds.map digitByte := by
  induction label generalizing ds with
  | nil => cases ds <;> simp
  | cons c label ih =>
    rw [List.mapM_cons]
    constructor
    · intro h
      obtain ⟨d, hd, h⟩ := Option.bind_eq_some_iff.mp h
      obtain ⟨rest, hrest, h⟩ := Option.bind_eq_some_iff.mp h
      obtain rfl := Option.some.inj h
      obtain ⟨hlt, rfl⟩ := ih.mp hrest
      obtain ⟨hten, rfl⟩ := eq_of_digitValue hd
      exact ⟨List.forall_mem_cons.mpr ⟨hten, hlt⟩, rfl⟩
    · rintro ⟨hlt, heq⟩
      cases ds with
      | nil => cases heq
      | cons d ds =>
        obtain ⟨rfl, rfl⟩ := List.cons.inj heq
        obtain ⟨hd, hlt⟩ := List.forall_mem_cons.mp hlt
        rw [digitValue_digitByte hd, ih.mpr ⟨hlt, rfl⟩]
        rfl

theorem digitByte_ne_plus {d : ℕ} (h : d < 10) : digitByte d ≠ 0x2B := by
  revert d
  decide

theorem parseDigits_eq_some_iff {digits : Bytes} {b : UInt8} :
    parseDigits digits = some b ↔ ∃ ds : List ℕ, ds ≠ [] ∧ (∀ d ∈ ds, d < 10) ∧
      read 10 ds = b.toNat ∧ digits = ds.map digitByte := by
  unfold parseDigits
  constructor
  · intro h
    split at h
    next => cases h
    next hne =>
      obtain ⟨ds, hds, hle⟩ := Option.bind_eq_some_iff.mp h
      obtain ⟨hlt, rfl⟩ := mapM_digitValue_iff.mp hds
      split at hle
      next hle' =>
        refine ⟨ds, fun e => hne (by rw [e]; rfl), hlt, ?_, rfl⟩
        rw [← Option.some.inj hle, Nat.toUInt8_eq, UInt8.toNat_ofNat', Nat.mod_eq_of_lt (by omega)]
      next => cases hle
  · rintro ⟨ds, hne, hlt, hread, rfl⟩
    have hbound := b.toNat_lt
    rw [if_neg (fun e => hne (List.map_eq_nil_iff.mp e)), mapM_digitValue_iff.mpr ⟨hlt, rfl⟩,
      Option.bind_some, hread, if_pos (by omega), Nat.toUInt8_eq, UInt8.ofNat_toNat]

theorem parseU8_eq_some_iff {label : Bytes} {b : UInt8} :
    parseU8 label = some b ↔ ∃ ds : List ℕ, ds ≠ [] ∧ (∀ d ∈ ds, d < 10) ∧ read 10 ds = b.toNat ∧
      (label = ds.map digitByte ∨ label = 0x2B :: ds.map digitByte) := by
  rw [parseU8, parseDigits_eq_some_iff]
  refine exists_congr fun ds => and_congr_right fun hne => and_congr_right fun hlt =>
    and_congr_right fun _ => ?_
  obtain ⟨d, rest, rfl⟩ := List.exists_cons_of_ne_nil hne
  have hplus := digitByte_ne_plus (hlt d List.mem_cons_self)
  split
  next hhead =>
    obtain ⟨tail, rfl⟩ := List.head?_eq_some_iff.mp hhead
    rw [List.tail_cons, List.map_cons, List.cons.injEq, List.cons.injEq]
    constructor
    · exact fun h => Or.inr ⟨rfl, h⟩
    · rintro (⟨h, -⟩ | ⟨-, h⟩)
      · exact absurd h.symm hplus
      · exact h
  next hhead =>
    refine ⟨Or.inl, fun h => h.resolve_right fun e => hhead ?_⟩
    rw [e]
    rfl

theorem decimal_eq (b : UInt8) : decimal b = (written 10 b.toNat).map digitByte := by
  rw [decimal, toDigits_eq (by decide), List.map_map]
  refine List.map_congr_left fun d hd => ?_
  have hlt := (canonical_written (by decide) b.toNat).lt d hd
  clear hd
  revert d
  decide

theorem parseU8_decimal (b : UInt8) : parseU8 (decimal b) = some b := by
  have hcanon := canonical_written (b := 10) (by decide) b.toNat
  exact parseU8_eq_some_iff.mpr
    ⟨written 10 b.toNat, hcanon.ne_nil, hcanon.lt, read_written 10 b.toNat, Or.inl (decimal_eq b)⟩

theorem lowercase_digits {ds : List ℕ} (h : ∀ d ∈ ds, d < 10) :
    lowercase (ds.map digitByte) = ds.map digitByte := by
  rw [lowercase, List.map_map]
  refine List.map_congr_left fun d hd => ?_
  have hlt := h d hd
  clear h hd
  revert d
  decide

theorem lowercase_decimal (b : UInt8) : lowercase (decimal b) = decimal b := by
  rw [decimal_eq]
  exact lowercase_digits (canonical_written (by decide) b.toNat).lt

/-- The label is spelled as an octet is printed: without a sign, and no zero in front. -/
structure PlainOctet (label : Bytes) : Prop where
  sign : label.head? ≠ some 0x2B
  zero : label.head? = some 0x30 → label.length = 1

theorem lowercase_eq_decimal_iff {label : Bytes} {b : UInt8} (h : parseU8 label = some b) :
    lowercase label = decimal b ↔ PlainOctet label := by
  obtain ⟨ds, hne, hlt, hread, hlabel⟩ := parseU8_eq_some_iff.mp h
  have hcanon := canonical_written (b := 10) (by decide) b.toNat
  obtain rfl | rfl := hlabel
  · rw [lowercase_digits hlt, decimal_eq]
    constructor
    · intro heq
      -- the digits are those that the octet is written with
      have hds : ds = written 10 b.toNat :=
        Option.some.inj ((mapM_digitValue_iff.mpr ⟨hlt, rfl⟩).symm.trans
          (mapM_digitValue_iff.mpr ⟨hcanon.lt, heq⟩))
      rw [← hds] at hcanon
      obtain ⟨d, rest, rfl⟩ := List.exists_cons_of_ne_nil hne
      have hd := hlt d List.mem_cons_self
      refine ⟨fun hsign => digitByte_ne_plus hd (Option.some.inj hsign), fun hhead => ?_⟩
      have hzero := digitValue_digitByte hd
      rw [Option.some.inj hhead] at hzero
      rw [List.length_map]
      exact hcanon.head hzero.symm
    · intro hplain
      rw [← hread, written_read (by decide) ⟨hne, hlt, fun hhead => ?_⟩]
      rw [← List.length_map digitByte]
      exact hplain.zero (by rw [List.head?_map, hhead]; rfl)
  · refine iff_of_false (fun heq => ?_) fun hplain => hplain.sign rfl
    have hplus : (0x2B : UInt8) ∈ (written 10 b.toNat).map digitByte := by
      rw [← decimal_eq, ← heq]
      exact List.mem_cons_self
    obtain ⟨d, hd, heq'⟩ := List.mem_map.mp hplus
    exact digitByte_ne_plus (hcanon.lt d hd) heq'

/-! ## Nibbles -/

theorem forall_octet {P : UInt8 → Prop} (h : ∀ n < 256, P (UInt8.ofNat n)) (b : UInt8) : P b := by
  have hb := h b.toNat b.toNat_lt
  rwa [UInt8.ofNat_toNat] at hb

theorem nibbleValue_hexNibble (b : UInt8) :
    nibbleValue [hexNibble (b &&& 0x0F)] = some (b &&& 0x0F) ∧
      nibbleValue [hexNibble (b >>> 4)] = some (b >>> 4) ∧
      (b >>> 4) <<< 4 ||| (b &&& 0x0F) = b ∧
      (nibbleLabels b).map lowercase = nibbleLabels b := by
  revert b
  exact forall_octet (by decide +kernel)

theorem eq_of_nibbleValue {label : Bytes} {v : UInt8} (h : nibbleValue label = some v) :
    v < 16 ∧ lowercase label = [hexNibble v] := by
  have hone : ∀ c : UInt8, ∀ w ∈ nibbleValue [c], w < 16 ∧ lowercase [c] = [hexNibble w] :=
    forall_octet (by decide +kernel)
  match label, h with
  | [c], h => exact hone c v h

theorem nibbles_join {l h : UInt8} (hl : l < 16) (hh : h < 16) :
    (h <<< 4 ||| l) &&& 0x0F = l ∧ (h <<< 4 ||| l) >>> 4 = h := by
  have hall : ∀ m < 16, ∀ n < 16,
      ((UInt8.ofNat n <<< 4 ||| UInt8.ofNat m) &&& 0x0F) = UInt8.ofNat m ∧
      (UInt8.ofNat n <<< 4 ||| UInt8.ofNat m) >>> 4 = UInt8.ofNat n := by decide
  have hboth := hall l.toNat (UInt8.lt_iff_toNat_lt.mp hl) h.toNat (UInt8.lt_iff_toNat_lt.mp hh)
  rwa [UInt8.ofNat_toNat, UInt8.ofNat_toNat] at hboth

theorem nibbleOctets_nibbleLabels (bytes : Bytes) :
    nibbleOctets (bytes.flatMap nibbleLabels) = some bytes := by
  induction bytes with
  | nil => rfl
  | cons b bytes ih =>
    obtain ⟨hlow, hhigh, hjoin, -⟩ := nibbleValue_hexNibble b
    rw [List.flatMap_cons, nibbleLabels, List.cons_append, List.cons_append, List.nil_append,
      nibbleOctets, hlow, hhigh, ih]
    exact congrArg (fun x => some (x :: bytes)) hjoin

theorem lowercase_of_nibbleOctets {labels : List Bytes} {bytes : Bytes}
    (heven : labels.length % 2 = 0) (h : nibbleOctets labels = some bytes) :
    labels.map lowercase = bytes.flatMap nibbleLabels := by
  induction labels using nibbleOctets.induct generalizing bytes with
  | case1 low high labels ih =>
    obtain ⟨l, hl, h⟩ := Option.bind_eq_some_iff.mp h
    obtain ⟨u, hu, h⟩ := Option.bind_eq_some_iff.mp h
    obtain ⟨rest, hrest, h⟩ := Option.bind_eq_some_iff.mp h
    obtain rfl := Option.some.inj h
    obtain ⟨hlow, hlower⟩ := eq_of_nibbleValue hl
    obtain ⟨hhigh, hupper⟩ := eq_of_nibbleValue hu
    obtain ⟨hand, hshift⟩ := nibbles_join hlow hhigh
    rw [List.length_cons, List.length_cons, Nat.add_assoc, Nat.add_mod_right] at heven
    rw [List.map_cons, List.map_cons, List.flatMap_cons, nibbleLabels, hand, hshift, hlower, hupper,
      ih heven hrest]
    rfl
  | case2 labels hshort =>
    match labels with
    | [] =>
      obtain rfl := Option.some.inj h
      rfl
    | [_] => cases heven
    | low :: high :: rest => exact absurd rfl (hshort low high rest)

/-! ## From addresses to names -/

theorem wireLength_le {labels : List Bytes} {k : ℕ} (h : ∀ l ∈ labels, l.length ≤ k) :
    wireLength labels ≤ labels.length * (1 + k) + 1 := by
  unfold wireLength
  have hsum := List.sum_le_card_nsmul (labels.map fun l => 1 + l.length) (1 + k) fun n hn => by
    obtain ⟨l, hl, rfl⟩ := List.mem_map.mp hn
    exact Nat.add_le_add_left (h l hl) 1
  rw [List.length_map, nsmul_eq_mul, Nat.cast_id] at hsum
  omega

theorem decimal_length (b : UInt8) : decimal b ≠ [] ∧ (decimal b).length ≤ 3 := by
  rw [decimal, List.length_map]
  refine ⟨fun h => Nat.toDigits_ne_nil (List.map_eq_nil_iff.mp h), ?_⟩
  exact Nat.toDigits_length 10 b.toNat 3 (by decide) (Nat.lt_trans b.toNat_lt (by decide))

theorem length_nibbles (bytes : Bytes) :
    (bytes.flatMap nibbleLabels).length = 2 * bytes.length := by
  rw [List.length_flatMap]
  simp [nibbleLabels, Nat.mul_comm]

/-- How many labels the name of an address has. -/
def IpAddr.labelCount : IpAddr → ℕ
  | v4 _ => 6
  | v6 _ => 34

/-- How long its labels can be. -/
def IpAddr.labelBound : IpAddr → ℕ
  | v4 _ => 7
  | v6 _ => 4

theorem length_arpaLabels (ip : IpAddr) : (arpaLabels ip).length = ip.labelCount := by
  cases ip with
  | v4 ip =>
    rw [arpaLabels, List.length_append, List.length_map, List.length_reverse, ip.length_bytes]
    rfl
  | v6 ip =>
    rw [arpaLabels, List.length_append, length_nibbles, List.length_reverse, ip.length_bytes]
    rfl

theorem arpaLabels_label {ip : IpAddr} {l : Bytes} (hl : l ∈ arpaLabels ip) :
    l ≠ [] ∧ l.length ≤ ip.labelBound := by
  cases ip with
  | v4 ip =>
    change l ≠ [] ∧ l.length ≤ 7
    obtain hl | hl := List.mem_append.mp hl
    · obtain ⟨b, -, rfl⟩ := List.mem_map.mp hl
      exact ⟨(decimal_length b).1, Nat.le_trans (decimal_length b).2 (by decide)⟩
    · have hfixed : ∀ t ∈ [inAddrLabel, arpaLabel], t ≠ [] ∧ t.length ≤ 7 := by decide
      exact hfixed l hl
  | v6 ip =>
    change l ≠ [] ∧ l.length ≤ 4
    obtain hl | hl := List.mem_append.mp hl
    · obtain ⟨b, -, hb⟩ := List.mem_flatMap.mp hl
      obtain rfl | rfl : l = [hexNibble (b &&& 0x0F)] ∨ l = [hexNibble (b >>> 4)] := by
        simpa [nibbleLabels] using hb
      · exact ⟨List.cons_ne_nil _ _, Nat.le_of_ble_eq_true rfl⟩
      · exact ⟨List.cons_ne_nil _ _, Nat.le_of_ble_eq_true rfl⟩
    · have hfixed : ∀ t ∈ [ip6Label, arpaLabel], t ≠ [] ∧ t.length ≤ 4 := by decide
      exact hfixed l hl

theorem labels_toArpa (ip : IpAddr) : (toArpa ip).labels = arpaLabels ip := by
  have hlabel : ∀ l ∈ arpaLabels ip, l ≠ [] ∧ l.length ≤ maxLabel := by
    intro l hl
    obtain ⟨hne, hle⟩ := arpaLabels_label hl
    refine ⟨hne, Nat.le_trans hle ?_⟩
    cases ip <;> exact Nat.le_of_ble_eq_true rfl
  have hwire : wireLength (arpaLabels ip) ≤ maxNameWire := by
    refine Nat.le_trans (wireLength_le fun l hl => (arpaLabels_label hl).2) ?_
    rw [length_arpaLabels]
    cases ip <;> exact Nat.le_of_ble_eq_true rfl
  unfold toArpa
  rw [Name.fromLabels_eq_ok_iff.mpr (rfl : (Name.mk _ hlabel hwire).labels = arpaLabels ip)]

theorem octets?_reverse {n : ℕ} (ip : Octets n) : octets? n ip.bytes.reverse = some ip := by
  obtain ⟨bytes, hbytes⟩ := ip
  rw [octets?, dif_pos (by rw [List.reverse_reverse]; exact hbytes)]
  simp only [List.reverse_reverse]

theorem mapM_parseU8_decimal (bytes : Bytes) : (bytes.map decimal).mapM parseU8 = some bytes := by
  induction bytes with
  | nil => rfl
  | cons b bytes ih =>
    rw [List.map_cons, List.mapM_cons, parseU8_decimal, ih]
    rfl

theorem cut_append {n : ℕ} {front : List Bytes} (h : front.length = n) (s t : Bytes) :
    (front ++ [s, t]).take n = front ∧ (front ++ [s, t]).getD n [] = s ∧
      (front ++ [s, t]).getD (n + 1) [] = t := by
  subst h
  refine ⟨List.take_left, ?_, ?_⟩
  · rw [List.getD_eq_getElem?_getD, List.getElem?_append_right (Nat.le_refl _), Nat.sub_self]
    rfl
  · rw [List.getD_eq_getElem?_getD, List.getElem?_append_right (Nat.le_succ _),
      Nat.succ_sub (Nat.le_refl _), Nat.sub_self]
    rfl

theorem eqIgnoreAsciiCase_self (l : Bytes) : eqIgnoreAsciiCase l l = true := decide_eq_true rfl

theorem fromArpa_toArpa (ip : IpAddr) : fromArpa (toArpa ip) = some ip := by
  have hlength := length_arpaLabels ip
  unfold fromArpa
  rw [labels_toArpa]
  cases ip with
  | v4 ip =>
    have hfour : (ip.bytes.reverse.map decimal).length = 4 := by
      rw [List.length_map, List.length_reverse, ip.length_bytes]
    obtain ⟨htake, hfifth, hlast⟩ := cut_append hfour inAddrLabel arpaLabel
    rw [if_pos ⟨hlength, by rw [arpaLabels, hfifth]; exact eqIgnoreAsciiCase_self _,
      by rw [arpaLabels, hlast]; exact eqIgnoreAsciiCase_self _⟩]
    rw [arpaLabels, htake, mapM_parseU8_decimal, Option.bind_some, octets?_reverse, Option.map_some]
  | v6 ip =>
    have hcount : (ip.bytes.reverse.flatMap nibbleLabels).length = 32 := by
      rw [length_nibbles, List.length_reverse, ip.length_bytes]
    obtain ⟨htake, hlast', hlast⟩ := cut_append hcount ip6Label arpaLabel
    rw [if_neg fun h => absurd (hlength.symm.trans h.1) (Nat.ne_of_beq_eq_false rfl),
      if_pos ⟨hlength, by rw [arpaLabels, hlast']; exact eqIgnoreAsciiCase_self _,
        by rw [arpaLabels, hlast]; exact eqIgnoreAsciiCase_self _⟩]
    rw [arpaLabels, htake, nibbleOctets_nibbleLabels, Option.bind_some, octets?_reverse,
      Option.map_some]

/-! ## From names to addresses -/

theorem eq_append_pair {labels : List Bytes} {n : ℕ} (h : labels.length = n + 2) :
    labels = labels.take n ++ [labels.getD n [], labels.getD (n + 1) []] := by
  obtain ⟨s, t, hdrop⟩ : ∃ s t, labels.drop n = [s, t] := by
    refine List.length_eq_two.mp ?_
    rw [List.length_drop, h, Nat.add_sub_cancel_left]
  have hsplit : labels.take n ++ [s, t] = labels := by rw [← hdrop, List.take_append_drop]
  have hlength : (labels.take n).length = n := by rw [List.length_take, h]; omega
  obtain ⟨-, hs, ht⟩ := cut_append hlength s t
  rw [hsplit] at hs ht
  rw [hs, ht, hsplit]

theorem octets?_eq_some {n : ℕ} {bytes : Bytes} {ip : Octets n} (h : octets? n bytes = some ip) :
    ip.bytes.reverse = bytes := by
  unfold octets? at h
  split at h
  next => rw [← Option.some.inj h, List.reverse_reverse]
  next => cases h

theorem lowercase_map_iff {labels : List Bytes} {bytes : Bytes}
    (h : labels.mapM parseU8 = some bytes) :
    labels.map lowercase = bytes.map decimal ↔ ∀ l ∈ labels, PlainOctet l := by
  induction labels generalizing bytes with
  | nil =>
    obtain rfl := Option.some.inj h
    exact iff_of_true rfl fun _ hl => absurd hl List.not_mem_nil
  | cons l labels ih =>
    rw [List.mapM_cons] at h
    obtain ⟨b, hb, h⟩ := Option.bind_eq_some_iff.mp h
    obtain ⟨rest, hrest, h⟩ := Option.bind_eq_some_iff.mp h
    obtain rfl := Option.some.inj h
    rw [List.map_cons, List.map_cons, List.cons.injEq, lowercase_eq_decimal_iff hb, ih hrest,
      List.forall_mem_cons]

/-- Where the name is one of an IPv4 address, its octets are spelled as they are printed. -/
def PlainOctets (n : Name) : Prop := n.labels.length = 6 → ∀ l ∈ n.labels.take 4, PlainOctet l

theorem lowercase_arpaLabels {labels : List Bytes} {front : List Bytes} {n : ℕ} {s t : Bytes}
    (hlength : labels.length = n + 2) (hs : eqIgnoreAsciiCase (labels.getD n []) s = true)
    (ht : eqIgnoreAsciiCase (labels.getD (n + 1) []) t = true) (hlower : lowercase s = s)
    (hlower' : lowercase t = t) :
    labels.map lowercase = front ++ [s, t] ↔ (labels.take n).map lowercase = front := by
  have hs' := of_decide_eq_true hs
  have ht' := of_decide_eq_true ht
  rw [hlower] at hs'
  rw [hlower'] at ht'
  conv_lhs =>
    rw [eq_append_pair hlength, List.map_append, List.map_cons, List.map_singleton, hs', ht']
  exact List.append_left_inj _

theorem eq_toArpa_iff {n : Name} {ip : IpAddr} (h : fromArpa n = some ip) :
    n.eq (toArpa ip) = true ↔ PlainOctets n := by
  rw [Name.eq_iff, labels_toArpa]
  unfold fromArpa at h
  dsimp only at h
  split at h
  next hv4 =>
    obtain ⟨hlength, hs, ht⟩ := hv4
    obtain ⟨bytes, hbytes, h⟩ := Option.bind_eq_some_iff.mp h
    obtain ⟨ip, hip, rfl⟩ := Option.map_eq_some_iff.mp h
    have hprinted : (arpaLabels (.v4 ip)).map lowercase =
        bytes.map decimal ++ [inAddrLabel, arpaLabel] := by
      rw [arpaLabels, octets?_eq_some hip, List.map_append, List.map_map]
      congr 1
      exact List.map_congr_left fun b _ => lowercase_decimal b
    rw [hprinted, lowercase_arpaLabels (n := 4) hlength hs ht rfl rfl, lowercase_map_iff hbytes]
    exact ⟨fun hplain _ => hplain, fun hplain => hplain hlength⟩
  next =>
    split at h
    next hv6 =>
      obtain ⟨hlength, hs, ht⟩ := hv6
      obtain ⟨bytes, hbytes, h⟩ := Option.bind_eq_some_iff.mp h
      obtain ⟨ip, hip, rfl⟩ := Option.map_eq_some_iff.mp h
      have hprinted : (arpaLabels (.v6 ip)).map lowercase =
          bytes.flatMap nibbleLabels ++ [ip6Label, arpaLabel] := by
        rw [arpaLabels, octets?_eq_some hip, List.map_append, List.map_flatMap]
        congr 1
        exact List.flatMap_congr fun b _ => (nibbleValue_hexNibble b).2.2.2
      have heven : (n.labels.take 32).length % 2 = 0 := by rw [List.length_take, hlength]; rfl
      rw [hprinted, lowercase_arpaLabels (n := 32) hlength hs ht rfl rfl]
      refine iff_of_true (lowercase_of_nibbleOctets heven hbytes) fun hsix => ?_
      rw [hlength] at hsix
      cases hsix
    next => cases h

/-- **Addresses and their names.**  An address is read back from its name, and a name that is read
as an address is the one of this address if and only if its octets are spelled plainly. -/
theorem arpa_round_trip (ip : IpAddr) (n : Name) : fromArpa (toArpa ip) = some ip ∧
    (fromArpa n = some ip → (n.eq (toArpa ip) = true ↔ PlainOctets n)) :=
  ⟨fromArpa_toArpa ip, eq_toArpa_iff⟩

/-- The address 1.2.3.4. -/
def demoIp : IpAddr := .v4 ⟨[1, 2, 3, 4], rfl⟩

theorem arpa_round_trip_demo : fromArpa (toArpa demoIp) = some demoIp ∧
    ((toArpa demoIp).eq (toArpa demoIp) = true ↔ PlainOctets (toArpa demoIp)) :=
  ⟨(arpa_round_trip demoIp (toArpa demoIp)).1,
    (arpa_round_trip demoIp (toArpa demoIp)).2 (arpa_round_trip demoIp (toArpa demoIp)).1⟩

/-- The name `+4.03.002.1.in-addr.arpa`. -/
def signedName : Name :=
  ⟨[[0x2B, 0x34], [0x30, 0x33], [0x30, 0x30, 0x32], [0x31], inAddrLabel, arpaLabel], by decide,
    by decide⟩

theorem signed_octets : fromArpa signedName = some demoIp ∧
    signedName.eq (toArpa demoIp) = false := by
  decide

end CaveHome.Dns
