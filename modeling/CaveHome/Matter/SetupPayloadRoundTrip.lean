import CaveHome.Lib.Decoder
import CaveHome.Lib.Radix
import CaveHome.Matter.SetupPayload
import Mathlib.Data.List.GetD

/-!
# What the QR code says and how it is spelled

Decoding gives back the bytes that were encoded, and reading the payload gives back what was
written.  The other way round, a group of characters can spell a number that does not fit the bytes
it stands for; decoding drops the rest of it, so that such a text is not the one that encoding the
result gives.
-/

namespace CaveHome.Matter

open CaveHome.Radix

/-! ## One group -/

theorem length_base38Alphabet : base38Alphabet.length = 38 := by decide

theorem nodup_base38Alphabet : base38Alphabet.Nodup := by decide

theorem ascii_base38Alphabet :
    ∀ c ∈ base38Alphabet, (Char.ofNat c.toNat).toNat = c.toNat ∧ c.toNat < 128 := by
  decide +kernel

theorem base38Index_eq_ok {c : UInt8} {i : Nat} :
    base38Index c = .ok i ↔ c ∈ base38Alphabet ∧ base38Alphabet.idxOf c = i := by
  unfold base38Index
  by_cases hc : c ∈ base38Alphabet <;> simp [hc]

/-- The number that characters spell in base 38, the first one being the least significant. -/
def spelled (cs : Bytes) : Nat := Nat.ofDigits 38 (cs.map base38Alphabet.idxOf)

theorem groupValue_eq_ok {cs : Bytes} {v : Nat} :
    groupValue cs = .ok v ↔ (∀ c ∈ cs, c ∈ base38Alphabet) ∧ spelled cs = v := by
  induction cs generalizing v with
  | nil => simp [groupValue, spelled]
  | cons c cs ih =>
    have hcons : spelled (c :: cs) = base38Alphabet.idxOf c + 38 * spelled cs :=
      Nat.ofDigits_cons
    rw [groupValue, Except.bind_eq_ok_iff, hcons]
    constructor
    · rintro ⟨w, hw, h⟩
      obtain ⟨i, hi, h⟩ := Except.bind_eq_ok_iff.mp h
      obtain ⟨hcs, rfl⟩ := ih.mp hw
      obtain ⟨hc, rfl⟩ := base38Index_eq_ok.mp hi
      refine ⟨List.forall_mem_cons.mpr ⟨hc, hcs⟩, ?_⟩
      rw [← Except.pure_eq_ok_iff.mp h]
      omega
    · rintro ⟨hmem, rfl⟩
      obtain ⟨hc, hcs⟩ := List.forall_mem_cons.mp hmem
      refine ⟨spelled cs, ih.mpr ⟨hcs, rfl⟩, ?_⟩
      rw [base38Index_eq_ok.mpr ⟨hc, rfl⟩]
      refine Except.pure_eq_ok_iff.mpr ?_
      omega

/-- The number of a byte string with the least significant byte first. -/
def number (bs : Bytes) : Nat := Nat.ofDigits 256 (bs.map UInt8.toNat)

theorem forall_mem_toNat_lt (bs : Bytes) : ∀ d ∈ bs.map UInt8.toNat, d < 256 := by
  intro d hd
  obtain ⟨b, -, rfl⟩ := List.mem_map.mp hd
  exact b.toNat_lt

theorem number_lt (bs : Bytes) : number bs < 256 ^ bs.length := by
  have h := ofDigits_lt (forall_mem_toNat_lt bs)
  rwa [List.length_map] at h

theorem lowDigits_number (bs : Bytes) :
    lowDigits 256 bs.length (number bs) = bs.map UInt8.toNat := by
  have h := lowDigits_ofDigits (forall_mem_toNat_lt bs)
  rwa [List.length_map] at h

theorem number_injective {bs bs' : Bytes} (hlen : bs.length = bs'.length)
    (h : number bs = number bs') : bs = bs' := by
  have hmap : bs.map UInt8.toNat = bs'.map UInt8.toNat := by
    rw [← lowDigits_number bs, ← lowDigits_number bs', hlen, h]
  exact List.map_injective_iff.mpr (fun a b => UInt8.toNat_inj.mp) hmap

theorem chunkValue_eq (bs : Bytes) : chunkValue bs = number bs := by
  induction bs with
  | nil => rfl
  | cons b bs ih =>
    have hcons : number (b :: bs) = b.toNat + 256 * number bs := Nat.ofDigits_cons
    have hor := Nat.two_pow_add_eq_or_of_lt (i := 8) b.toNat_lt (number bs)
    rw [chunkValue, ih, Nat.shiftLeft_eq, Nat.mul_comm, ← hor, hcons]
    omega

theorem groupBytes_toNat (n v : Nat) : (groupBytes n v).map UInt8.toNat = lowDigits 256 n v := by
  have hdigit : ∀ k, (UInt8.ofNat ((v >>> (8 * k)) &&& 0xff)).toNat = v / 256 ^ k % 256 := by
    intro k
    have hand : (v >>> (8 * k)) &&& 0xff = v >>> (8 * k) % 256 :=
      Nat.and_two_pow_sub_one_eq_mod _ 8
    have hmod : v >>> (8 * k) % 256 % 256 = v >>> (8 * k) % 256 := Nat.mod_mod _ _
    rw [hand, UInt8.toNat_ofNat', hmod, Nat.shiftRight_eq_div_pow, Nat.pow_mul]
  have hlow : ∀ n v, (List.range n).map (fun k => v / 256 ^ k % 256) = lowDigits 256 n v := by
    intro n
    induction n with
    | zero => exact fun v => rfl
    | succ n ih =>
      intro v
      rw [List.range_succ_eq_map, List.map_cons, List.map_map, lowDigits, ← ih, pow_zero,
        Nat.div_one]
      congr 1
      refine List.map_congr_left fun k _ => ?_
      rw [Function.comp_apply, Nat.succ_eq_add_one, Nat.pow_succ', Nat.div_div_eq_div_mul]
  rw [groupBytes, List.map_map, ← hlow]
  exact List.map_congr_left fun k _ => hdigit k

theorem length_groupBytes (n v : Nat) : (groupBytes n v).length = n := by
  rw [groupBytes, List.length_map, List.length_range]

theorem number_groupBytes (n v : Nat) : number (groupBytes n v) = v % 256 ^ n := by
  rw [number, groupBytes_toNat, ofDigits_lowDigits]

theorem groupBytes_number (bs : Bytes) : groupBytes bs.length (number bs) = bs := by
  refine number_injective (length_groupBytes _ _) ?_
  rw [number_groupBytes, Nat.mod_eq_of_lt (number_lt bs)]

/-- The byte of a character. -/
def charByte (c : Char) : UInt8 := c.toNat.toUInt8

theorem base38Char_spec {i : Nat} (hi : i < base38Alphabet.length) :
    charByte (base38Char i) = base38Alphabet[i] ∧ (base38Char i).toNat < 128 := by
  obtain ⟨hchar, hascii⟩ := ascii_base38Alphabet _ (List.getElem_mem hi)
  rw [charByte, base38Char, List.getD_eq_getElem _ _ hi, hchar]
  exact ⟨UInt8.ofNat_toNat, hascii⟩

theorem mod_lt_length (v : Nat) : v % 38 < base38Alphabet.length := by
  rw [length_base38Alphabet]
  omega

/-- The bytes of the characters for a number. -/
def chunkBytes (n v : Nat) : Bytes := (chunkChars n v).map charByte

theorem length_chunkBytes (n v : Nat) : (chunkBytes n v).length = n := by
  rw [chunkBytes, List.length_map]
  induction n generalizing v with
  | zero => rfl
  | succ n ih => rw [chunkChars, List.length_cons, ih]

theorem mem_chunkBytes {n v : Nat} {c : UInt8} (h : c ∈ chunkBytes n v) : c ∈ base38Alphabet := by
  induction n generalizing v with
  | zero => cases h
  | succ n ih =>
    rcases List.mem_cons.mp h with rfl | h
    · rw [(base38Char_spec (mod_lt_length v)).1]
      exact List.getElem_mem _
    · exact ih h

theorem idxOf_chunkBytes (n v : Nat) :
    (chunkBytes n v).map base38Alphabet.idxOf = lowDigits 38 n v := by
  induction n generalizing v with
  | zero => rfl
  | succ n ih =>
    have hidx : base38Alphabet.idxOf (charByte (base38Char (v % 38))) = v % 38 := by
      rw [(base38Char_spec (mod_lt_length v)).1]
      exact nodup_base38Alphabet.idxOf_getElem _ _
    rw [lowDigits, ← ih, ← hidx]
    simp only [chunkBytes, chunkChars, List.map_cons, hidx]

theorem spelled_chunkBytes (n v : Nat) : spelled (chunkBytes n v) = v % 38 ^ n := by
  rw [spelled, idxOf_chunkBytes, ofDigits_lowDigits]

theorem spelled_injective {cs cs' : Bytes} (hcs : ∀ c ∈ cs, c ∈ base38Alphabet)
    (hcs' : ∀ c ∈ cs', c ∈ base38Alphabet) (hlen : cs.length = cs'.length)
    (h : spelled cs = spelled cs') : cs = cs' := by
  have hlow : ∀ {cs : Bytes}, (∀ c ∈ cs, c ∈ base38Alphabet) →
      lowDigits 38 cs.length (spelled cs) = cs.map base38Alphabet.idxOf := by
    intro cs hcs
    have hlt : ∀ d ∈ cs.map base38Alphabet.idxOf, d < 38 := by
      intro d hd
      obtain ⟨c, hc, rfl⟩ := List.mem_map.mp hd
      rw [← length_base38Alphabet]
      exact List.idxOf_lt_length_iff.mpr (hcs c hc)
    have h := lowDigits_ofDigits hlt
    rwa [List.length_map] at h
  have hmap : cs.map base38Alphabet.idxOf = cs'.map base38Alphabet.idxOf := by
    rw [← hlow hcs, ← hlow hcs', hlen, h]
  refine List.ext_getElem hlen fun k hk hk' => ?_
  have hidx : base38Alphabet.idxOf cs[k] = base38Alphabet.idxOf cs'[k] := by
    have hget := congrArg (·[k]?) hmap
    simpa [hk, hk'] using hget
  exact (List.idxOf_inj (hcs _ (List.getElem_mem hk))).mp hidx

theorem groupValue_chunkBytes {n v : Nat} (h : v < 38 ^ n) :
    groupValue (chunkBytes n v) = .ok v :=
  groupValue_eq_ok.mpr
    ⟨fun _ => mem_chunkBytes, by rw [spelled_chunkBytes, Nat.mod_eq_of_lt h]⟩

theorem groupBytes_chunkBytes {bs : Bytes} {n k : Nat} (hbs : bs.length = n)
    (hfit : 256 ^ n ≤ 38 ^ k) :
    groupBytes n <$> groupValue (chunkBytes k (chunkValue bs)) = .ok bs := by
  subst hbs
  rw [chunkValue_eq, groupValue_chunkBytes ((number_lt bs).trans_le hfit)]
  exact congrArg Except.ok (groupBytes_number bs)

theorem chunkBytes_groupBytes_iff {cs : Bytes} {n k : Nat} (hcs : cs.length = k)
    (hmem : ∀ c ∈ cs, c ∈ base38Alphabet) (hfit : 256 ^ n ≤ 38 ^ k) :
    chunkBytes k (chunkValue (groupBytes n (spelled cs))) = cs ↔ spelled cs < 256 ^ n := by
  have hpos : 0 < 256 ^ n := Nat.pow_pos (by decide)
  have hlt : spelled cs % 256 ^ n < 256 ^ n := Nat.mod_lt _ hpos
  rw [chunkValue_eq, number_groupBytes]
  constructor
  · intro h
    have heq : spelled cs = spelled cs % 256 ^ n := by
      conv_lhs => rw [← h, spelled_chunkBytes]
      exact Nat.mod_eq_of_lt (hlt.trans_le hfit)
    rw [heq]
    exact hlt
  · intro h
    refine spelled_injective (fun _ => mem_chunkBytes) hmem ((length_chunkBytes _ _).trans hcs.symm) ?_
    rw [spelled_chunkBytes, Nat.mod_eq_of_lt h, Nat.mod_eq_of_lt (h.trans_le hfit)]

/-! ## The whole text -/

/-- The bytes of the text that encoding gives. -/
def encodeBytes (bs : Bytes) : Bytes := (base38EncodeChars bs).map charByte

theorem ofString_base38Encode (bs : Bytes) : Bytes.ofString (base38Encode bs) = encodeBytes bs := by
  have hchunk : ∀ n v, ∀ c ∈ chunkChars n v, c.toNat < 128 := by
    intro n
    induction n with
    | zero => exact fun v c hc => absurd hc List.not_mem_nil
    | succ n ih =>
      intro v c hc
      rcases List.mem_cons.mp hc with rfl | hc
      · exact (base38Char_spec (mod_lt_length v)).2
      · exact ih _ c hc
  refine Bytes.ofString_ofList ?_
  induction bs using base38EncodeChars.induct with
  | case1 => exact fun c hc => absurd hc List.not_mem_nil
  | case2 b₀ b₁ b₂ rest ih =>
    intro c hc
    exact (List.mem_append.mp hc).elim (hchunk _ _ c) (ih c)
  | case3 b₀ b₁ => exact hchunk _ _
  | case4 b₀ => exact hchunk _ _

theorem encodeBytes_append {bs : Bytes} (h : bs.length = 3) (rest : Bytes) :
    encodeBytes (bs ++ rest) = chunkBytes 5 (chunkValue bs) ++ encodeBytes rest := by
  match bs, h with
  | [b₀, b₁, b₂], _ => exact List.map_append

theorem encodeBytes_two {bs : Bytes} (h : bs.length = 2) :
    encodeBytes bs = chunkBytes 4 (chunkValue bs) := by
  match bs, h with
  | [b₀, b₁], _ => rfl

theorem encodeBytes_one {bs : Bytes} (h : bs.length = 1) :
    encodeBytes bs = chunkBytes 2 (chunkValue bs) := by
  match bs, h with
  | [b₀], _ => rfl

theorem decodeBytes_append {cs : Bytes} (h : cs.length = 5) (rest : Bytes) :
    base38DecodeBytes (cs ++ rest) =
      (groupBytes 3 <$> groupValue cs) >>= fun bs => (bs ++ ·) <$> base38DecodeBytes rest := by
  match cs, h with
  | [c₀, c₁, c₂, c₃, c₄], _ =>
    change groupValue [c₀, c₁, c₂, c₃, c₄] >>= _ = _
    cases groupValue [c₀, c₁, c₂, c₃, c₄] <;> rfl

theorem decodeBytes_four {cs : Bytes} (h : cs.length = 4) :
    base38DecodeBytes cs = groupBytes 2 <$> groupValue cs := by
  match cs, h with
  | [c₀, c₁, c₂, c₃], _ => rfl

theorem decodeBytes_two {cs : Bytes} (h : cs.length = 2) :
    base38DecodeBytes cs = groupBytes 1 <$> groupValue cs := by
  match cs, h with
  | [c₀, c₁], _ => rfl

theorem decodeBytes_encodeBytes (bs : Bytes) : base38DecodeBytes (encodeBytes bs) = .ok bs := by
  induction bs using base38EncodeChars.induct with
  | case1 => rfl
  | case2 b₀ b₁ b₂ rest ih =>
    have hlen : [b₀, b₁, b₂].length = 3 := rfl
    change base38DecodeBytes (encodeBytes ([b₀, b₁, b₂] ++ rest)) = _
    rw [encodeBytes_append hlen, decodeBytes_append (length_chunkBytes _ _),
      groupBytes_chunkBytes hlen (by decide), ih]
    rfl
  | case3 b₀ b₁ =>
    have hlen : [b₀, b₁].length = 2 := rfl
    rw [encodeBytes_two hlen, decodeBytes_four (length_chunkBytes _ _),
      groupBytes_chunkBytes hlen (by decide)]
  | case4 b₀ =>
    have hlen : [b₀].length = 1 := rfl
    rw [encodeBytes_one hlen, decodeBytes_two (length_chunkBytes _ _),
      groupBytes_chunkBytes hlen (by decide)]

/-- Every group of the text spells a number that fits the bytes which it stands for. -/
def groupsFit : Bytes → Bool
  | c₀ :: c₁ :: c₂ :: c₃ :: c₄ :: rest =>
    decide (spelled [c₀, c₁, c₂, c₃, c₄] < 256 ^ 3) && groupsFit rest
  | [c₀, c₁, c₂, c₃] => decide (spelled [c₀, c₁, c₂, c₃] < 256 ^ 2)
  | [c₀, c₁] => decide (spelled [c₀, c₁] < 256 ^ 1)
  | _ => true

theorem encodeBytes_decodeBytes {cs bs : Bytes} (h : base38DecodeBytes cs = .ok bs) :
    encodeBytes bs = cs ↔ groupsFit cs := by
  induction cs using base38DecodeBytes.induct generalizing bs with
  | case1 =>
    obtain rfl := Except.ok.inj h
    exact iff_of_true rfl rfl
  | case2 c₀ c₁ c₂ c₃ c₄ rest ih =>
    have hlen : [c₀, c₁, c₂, c₃, c₄].length = 5 := rfl
    change base38DecodeBytes ([c₀, c₁, c₂, c₃, c₄] ++ rest) = _ at h
    rw [decodeBytes_append hlen] at h
    obtain ⟨_, hgroup, h⟩ := Except.bind_eq_ok_iff.mp h
    obtain ⟨v, hv, rfl⟩ := Except.map_eq_ok_iff.mp hgroup
    obtain ⟨bs', hrest, rfl⟩ := Except.map_eq_ok_iff.mp h
    obtain ⟨hmem, rfl⟩ := groupValue_eq_ok.mp hv
    change encodeBytes _ = [c₀, c₁, c₂, c₃, c₄] ++ rest ↔ _
    rw [encodeBytes_append (length_groupBytes _ _), groupsFit, Bool.and_eq_true,
      decide_eq_true_iff, ← chunkBytes_groupBytes_iff hlen hmem (by decide), ← ih hrest]
    exact ⟨fun heq => List.append_inj heq (length_chunkBytes _ _),
      fun heq => congrArg₂ (· ++ ·) heq.1 heq.2⟩
  | case3 c₀ c₁ c₂ c₃ =>
    have hlen : [c₀, c₁, c₂, c₃].length = 4 := rfl
    rw [decodeBytes_four hlen] at h
    obtain ⟨v, hv, rfl⟩ := Except.map_eq_ok_iff.mp h
    obtain ⟨hmem, rfl⟩ := groupValue_eq_ok.mp hv
    rw [encodeBytes_two (length_groupBytes _ _), chunkBytes_groupBytes_iff hlen hmem (by decide)]
    exact decide_eq_true_iff.symm
  | case4 c₀ c₁ =>
    have hlen : [c₀, c₁].length = 2 := rfl
    rw [decodeBytes_two hlen] at h
    obtain ⟨v, hv, rfl⟩ := Except.map_eq_ok_iff.mp h
    obtain ⟨hmem, rfl⟩ := groupValue_eq_ok.mp hv
    rw [encodeBytes_one (length_groupBytes _ _), chunkBytes_groupBytes_iff hlen hmem (by decide)]
    exact decide_eq_true_iff.symm
  | case5 rest h₁ h₂ h₃ h₄ =>
    rw [base38DecodeBytes] at h
    · cases h
    all_goals assumption

/-! ## Bits -/

theorem getD_toNat (bs : Bytes) (k : Nat) : (bs.map UInt8.toNat).getD k 0 = (bs.getD k 0).toNat :=
  List.getD_map bs 0 UInt8.toNat

theorem toNat_getD (bs : Bytes) (k : Nat) :
    (bs.getD k 0).toNat = number bs / 256 ^ k % 256 := by
  rw [number, ofDigits_div_mod (forall_mem_toNat_lt bs), getD_toNat]

theorem number_bit (bs : Bytes) (p : Nat) :
    ((bs.getD (p / 8) 0).toNat >>> (p % 8)) &&& 1 = number bs / 2 ^ p % 2 := by
  have hpow : 2 ^ p = 256 ^ (p / 8) * 2 ^ (p % 8) := by
    rw [← Nat.pow_mul 2 8, ← Nat.pow_add, Nat.div_add_mod]
  have hlt : p % 8 < 8 := Nat.mod_lt _ (by decide)
  rw [Nat.and_one_is_mod, Nat.shiftRight_eq_div_pow, toNat_getD, hpow, ← Nat.div_div_eq_div_mul]
  generalize number bs / 256 ^ (p / 8) = q
  interval_cases p % 8 <;> omega

theorem BitReader.read_eq (r : BitReader) (width : Nat) :
    r.read width =
      (number r.bytes / 2 ^ r.bitPos % 2 ^ width, { r with bitPos := r.bitPos + width }) := by
  induction width with
  | zero => rw [BitReader.read, pow_zero, Nat.mod_one]; rfl
  | succ i ih =>
    have hlt : number r.bytes / 2 ^ r.bitPos % 2 ^ i < 2 ^ i := Nat.mod_lt _ (by positivity)
    have hor := Nat.two_pow_add_eq_or_of_lt hlt (number r.bytes / 2 ^ (r.bitPos + i) % 2)
    rw [BitReader.read, ih]
    dsimp only
    rw [number_bit, Nat.shiftLeft_eq, Nat.or_comm, Nat.mul_comm, ← hor, Nat.pow_succ,
      Nat.mod_mul, Nat.div_div_eq_div_mul, ← Nat.pow_add, Nat.add_comm (2 ^ i * _)]
    rfl

/-- The writer has as many bytes as its bits need, and they make the number. -/
structure BitWriter.Holds (w : BitWriter) (n : Nat) : Prop where
  length_bytes : w.bytes.length = (w.bitPos + 7) / 8
  number_bytes : number w.bytes = n
  lt_pow : n < 2 ^ w.bitPos

theorem number_append_zero (bs : Bytes) : number (bs ++ [0]) = number bs := by
  rw [number, List.map_append]
  exact Nat.ofDigits_append_zero _

theorem number_set_bit {bs : Bytes} {p bit : Nat} (hbit : bit < 2) (hlen : p / 8 < bs.length)
    (hlt : number bs < 2 ^ p) :
    number (bs.set (p / 8)
        (UInt8.ofNat ((bs.getD (p / 8) 0).toNat ||| (bit <<< (p % 8))))) =
      number bs + bit * 2 ^ p := by
  have hbyte : (bs.getD (p / 8) 0).toNat < 2 ^ (p % 8) := by
    rw [toNat_getD]
    refine (Nat.mod_le _ _).trans_lt (Nat.div_lt_of_lt_mul ?_)
    rwa [← Nat.pow_mul 2 8, ← Nat.pow_add, Nat.div_add_mod]
  have hor := Nat.two_pow_add_eq_or_of_lt hbyte bit
  have hlt8 : 2 ^ (p % 8) * bit + (bs.getD (p / 8) 0).toNat < 256 := by
    have hmod : p % 8 < 8 := Nat.mod_lt _ (by decide)
    generalize (bs.getD (p / 8) 0).toNat = d at hbyte
    interval_cases bit <;> interval_cases p % 8 <;> omega
  have hset : (bs.set (p / 8)
        (UInt8.ofNat ((bs.getD (p / 8) 0).toNat ||| (bit <<< (p % 8))))).map UInt8.toNat =
      (bs.map UInt8.toNat).set (p / 8)
        ((bs.map UInt8.toNat).getD (p / 8) 0 + bit * 2 ^ (p % 8)) := by
    rw [List.map_set, Nat.shiftLeft_eq, Nat.or_comm, Nat.mul_comm bit, ← hor,
      UInt8.toNat_ofNat_of_lt' hlt8, getD_toNat, Nat.add_comm]
  rw [number, hset, ofDigits_set_add _ (by rwa [List.length_map]), Nat.mul_assoc,
    ← Nat.pow_mul 2 8, ← Nat.pow_add, Nat.add_comm (p % 8), Nat.div_add_mod]
  rfl

theorem BitWriter.Holds.write {w : BitWriter} {n : Nat} (h : w.Holds n) (value width : Nat) :
    (w.write value width).Holds (n + value % 2 ^ width * 2 ^ w.bitPos) ∧
      (w.write value width).bitPos = w.bitPos + width := by
  induction width with
  | zero => exact ⟨by simpa [BitWriter.write, Nat.mod_one] using h, rfl⟩
  | succ i ih =>
    obtain ⟨⟨hlen, hnum, hlt⟩, hpos⟩ := ih
    generalize hw' : w.write value i = w' at hlen hnum hlt hpos
    generalize hn' : n + value % 2 ^ i * 2 ^ w.bitPos = n' at hnum hlt
    have hbit : (value >>> i) &&& 1 = value / 2 ^ i % 2 := by
      rw [Nat.and_one_is_mod, Nat.shiftRight_eq_div_pow]
    have hlt2 : value / 2 ^ i % 2 < 2 := Nat.mod_lt _ (by decide)
    -- A byte is added only when all those there are full.
    obtain ⟨bytes, hbytes, hlen', hnum'⟩ : ∃ bytes,
        (if w'.bytes.length ≤ w'.bitPos / 8 then w'.bytes ++ [0] else w'.bytes) = bytes ∧
          bytes.length = (w'.bitPos + 1 + 7) / 8 ∧ number bytes = n' := by
      refine ⟨_, rfl, ?_⟩
      split
      next hle => exact ⟨by rw [List.length_append, hlen, List.length_singleton]; omega,
        (number_append_zero _).trans hnum⟩
      next hle => exact ⟨by omega, hnum⟩
    have hset := number_set_bit (p := w'.bitPos) hlt2 (by omega) (hnum'.symm ▸ hlt)
    have hpow : 2 ^ (w'.bitPos + 1) = 2 * 2 ^ w'.bitPos := Nat.pow_succ'
    have hsum : n + value % 2 ^ (i + 1) * 2 ^ w.bitPos =
        n' + value / 2 ^ i % 2 * 2 ^ w'.bitPos := by
      rw [← hn', hpos, Nat.pow_succ, Nat.mod_mul, Nat.pow_add]
      ring
    have hle : value / 2 ^ i % 2 * 2 ^ w'.bitPos ≤ 1 * 2 ^ w'.bitPos :=
      Nat.mul_le_mul_right _ (by omega)
    rw [BitWriter.write, hw', hsum]
    dsimp only
    rw [hbit, hbytes]
    refine ⟨⟨by rw [List.length_set, hlen'], by rw [hset, hnum'], ?_⟩, by omega⟩
    dsimp only
    omega

/-! ## The payload -/

/-- The fields of the payload side by side. -/
def SetupPayload.packed (p : SetupPayload) : Nat :=
  p.version.toNat % 2 ^ 3 + p.vendorId.toNat * 2 ^ 3 + p.productId.toNat * 2 ^ 19 +
    p.commissioningFlow.toBits * 2 ^ 35 + p.rendezvousInformation.toNat * 2 ^ 37 +
    p.discriminator.toNat % 2 ^ 12 * 2 ^ 45 + p.passcode.toNat % 2 ^ 27 * 2 ^ 57

theorem CommissioningFlow.toBits_lt (f : CommissioningFlow) : f.toBits < 2 ^ 2 := by
  cases f <;> decide

theorem writePayload_spec (p : SetupPayload) :
    (writePayload p).length = 11 ∧ number (writePayload p) = p.packed := by
  have h₀ : BitWriter.Holds {} 0 := ⟨rfl, rfl, Nat.one_pos⟩
  obtain ⟨h₁, p₁⟩ := h₀.write p.version.toNat 3
  obtain ⟨h₂, p₂⟩ := h₁.write p.vendorId.toNat 16
  obtain ⟨h₃, p₃⟩ := h₂.write p.productId.toNat 16
  obtain ⟨h₄, p₄⟩ := h₃.write p.commissioningFlow.toBits 2
  obtain ⟨h₅, p₅⟩ := h₄.write p.rendezvousInformation.toNat 8
  obtain ⟨h₆, p₆⟩ := h₅.write p.discriminator.toNat 12
  obtain ⟨h₇, p₇⟩ := h₆.write p.passcode.toNat 27
  obtain ⟨h₈, p₈⟩ := h₇.write 0 4
  simp only [p₁, p₂, p₃, p₄, p₅, p₆, p₇] at p₈ h₂ h₃ h₄ h₅ h₆ h₇ h₈
  refine ⟨h₈.length_bytes.trans (by rw [p₈]), h₈.number_bytes.trans ?_⟩
  rw [Nat.mod_eq_of_lt p.vendorId.toNat_lt, Nat.mod_eq_of_lt p.productId.toNat_lt,
    Nat.mod_eq_of_lt p.commissioningFlow.toBits_lt,
    Nat.mod_eq_of_lt p.rendezvousInformation.toNat_lt, SetupPayload.packed]
  simp

theorem readPayload_eq (bytes : Bytes) :
    readPayload bytes =
      (fun flow => {
        version := UInt8.ofNat (number bytes % 2 ^ 3)
        vendorId := UInt16.ofNat (number bytes / 2 ^ 3 % 2 ^ 16)
        productId := UInt16.ofNat (number bytes / 2 ^ 19 % 2 ^ 16)
        commissioningFlow := flow
        rendezvousInformation := UInt8.ofNat (number bytes / 2 ^ 37 % 2 ^ 8)
        discriminator := UInt16.ofNat (number bytes / 2 ^ 45 % 2 ^ 12)
        passcode := UInt32.ofNat (number bytes / 2 ^ 57 % 2 ^ 27) }) <$>
        CommissioningFlow.fromBits (UInt8.ofNat (number bytes / 2 ^ 35 % 2 ^ 2)) := by
  have h0 : number bytes % 2 ^ 3 = number bytes / 2 ^ 0 % 2 ^ 3 := by rw [pow_zero, Nat.div_one]
  rw [h0, readPayload]
  simp only [BitReader.read_eq]
  rfl

theorem CommissioningFlow.fromBits_eq_ok {b : UInt8} {f : CommissioningFlow} :
    fromBits b = .ok f ↔ b.toNat = f.toBits := by
  have hb : ∀ c : UInt8, b = c ↔ b.toNat = c.toNat := fun c => UInt8.toNat_inj.symm
  unfold fromBits
  split_ifs with h₀ h₁ h₂
  · subst h₀
    cases f <;> decide
  · subst h₁
    cases f <;> decide
  · subst h₂
    cases f <;> decide
  · rw [hb] at h₀ h₁ h₂
    refine iff_of_false (by simp) fun h => ?_
    cases f
    · exact h₀ h
    · exact h₁ h
    · exact h₂ h

theorem SetupPayload.bounds_of_validate {p : SetupPayload} (h : p.validate = .ok ()) :
    p.version.toNat < 2 ^ 3 ∧ p.discriminator.toNat < 2 ^ 12 ∧ p.passcode.toNat < 2 ^ 27 := by
  unfold SetupPayload.validate at h
  split_ifs at h with h₁ h₂ h₃
  rw [UInt8.lt_iff_toNat_lt] at h₁
  rw [UInt16.lt_iff_toNat_lt] at h₂
  rw [not_or, UInt32.lt_iff_toNat_lt] at h₃
  have e₁ : UInt8.toNat 0b111 = 7 := rfl
  have e₂ : UInt16.toNat 0x0FFF = 4095 := rfl
  have e₃ : UInt32.toNat 0x05F5E0FE = 99999998 := rfl
  omega

theorem readPayload_writePayload {p : SetupPayload} (h : p.validate = .ok ()) :
    readPayload (writePayload p) = .ok p := by
  obtain ⟨hversion, hdiscriminator, hpasscode⟩ := p.bounds_of_validate h
  have hvendor := p.vendorId.toNat_lt
  have hproduct := p.productId.toNat_lt
  have hflow := p.commissioningFlow.toBits_lt
  have hrendezvous := p.rendezvousInformation.toNat_lt
  have hpacked := (writePayload_spec p).2
  rw [SetupPayload.packed, Nat.mod_eq_of_lt hversion, Nat.mod_eq_of_lt hdiscriminator,
    Nat.mod_eq_of_lt hpasscode] at hpacked
  rw [readPayload_eq, Except.map_eq_ok_iff]
  generalize number (writePayload p) = n at hpacked
  have hversion' : n % 2 ^ 3 = p.version.toNat := by omega
  have hvendor' : n / 2 ^ 3 % 2 ^ 16 = p.vendorId.toNat := by omega
  have hproduct' : n / 2 ^ 19 % 2 ^ 16 = p.productId.toNat := by omega
  have hflow' : n / 2 ^ 35 % 2 ^ 2 = p.commissioningFlow.toBits := by omega
  have hrendezvous' : n / 2 ^ 37 % 2 ^ 8 = p.rendezvousInformation.toNat := by omega
  have hdiscriminator' : n / 2 ^ 45 % 2 ^ 12 = p.discriminator.toNat := by omega
  have hpasscode' : n / 2 ^ 57 % 2 ^ 27 = p.passcode.toNat := by omega
  refine ⟨p.commissioningFlow, CommissioningFlow.fromBits_eq_ok.mpr ?_, ?_⟩
  · rw [hflow', UInt8.toNat_ofNat', Nat.mod_eq_of_lt (hflow.trans (by decide))]
  · rw [hversion', hvendor', hproduct', hrendezvous', hdiscriminator', hpasscode']
    simp only [UInt8.ofNat_toNat, UInt16.ofNat_toNat, UInt32.ofNat_toNat]

theorem writePayload_readPayload {bytes : Bytes} {p : SetupPayload}
    (h : readPayload bytes = .ok p) (hlen : bytes.length = 11) (hlt : number bytes < 2 ^ 84) :
    writePayload p = bytes := by
  obtain ⟨hlen', hnum⟩ := writePayload_spec p
  refine number_injective (hlen'.trans hlen.symm) (hnum.trans ?_)
  rw [readPayload_eq] at h
  obtain ⟨flow, hflow, rfl⟩ := Except.map_eq_ok_iff.mp h
  have hbits := CommissioningFlow.fromBits_eq_ok.mp hflow
  rw [UInt8.toNat_ofNat'] at hbits
  unfold SetupPayload.packed
  dsimp only
  rw [← hbits, UInt8.toNat_ofNat', UInt16.toNat_ofNat', UInt16.toNat_ofNat', UInt16.toNat_ofNat',
    UInt8.toNat_ofNat', UInt32.toNat_ofNat']
  generalize number bytes = n at hlt
  omega

/-! ## The text of the QR code -/

theorem base38Decode_base38Encode (bs : Bytes) : base38Decode (base38Encode bs) = .ok bs := by
  rw [base38Decode, ofString_base38Encode, decodeBytes_encodeBytes]

/-- Every group of the text spells a number that fits. -/
def GroupsFit (s : String) : Prop := groupsFit (Bytes.ofString s) = true

theorem base38Encode_base38Decode {s : String} {bs : Bytes} (h : base38Decode s = .ok bs) :
    base38Encode bs = s ↔ GroupsFit s := by
  rw [← Bytes.ofString_injective.eq_iff, ofString_base38Encode]
  exact encodeBytes_decodeBytes h

/-- The text after the start of the code. -/
def qrBody (s : String) : String := (Text.dropPrefix? qrCodePrefix s).getD s

/-- The code carries as many bytes as the fields need, and the bits after the last field are
zero. -/
def CarriesExactly (s : String) : Prop :=
  ∃ bytes, base38Decode (qrBody s) = .ok bytes ∧ bytes.length * 8 = totalPayloadDataSizeBits ∧
    (bytes.getD 10 0).toNat >>> 4 = 0

theorem parseQrPayload_eq_ok {s : String} {p : SetupPayload} (h : parseQrPayload s = .ok p) :
    ∃ bytes, qrCodePrefix ++ qrBody s = s ∧ base38Decode (qrBody s) = .ok bytes ∧
      readPayload bytes = .ok p ∧ p.validate = .ok () := by
  unfold parseQrPayload at h
  split at h
  next => cases h
  next body hbody =>
    obtain ⟨bytes, hbytes, h⟩ := Except.bind_eq_ok_iff.mp h
    have hdrop : qrBody s = body := by rw [qrBody, hbody, Option.getD_some]
    split at h
    next => cases h
    next =>
      obtain ⟨p', hread, h⟩ := Except.bind_eq_ok_iff.mp h
      obtain ⟨_, hvalid, h⟩ := Except.bind_eq_ok_iff.mp h
      obtain rfl := Except.pure_eq_ok_iff.mp h
      rw [hdrop]
      exact ⟨bytes, Text.dropPrefix?_eq_some_iff.mp hbody, hbytes, hread, hvalid⟩

theorem encodeQrPayload_of_validate {p : SetupPayload} (h : p.validate = .ok ()) :
    encodeQrPayload p = .ok (qrCodePrefix ++ base38Encode (writePayload p)) := by
  rw [encodeQrPayload, h]
  rfl

theorem parseQrPayload_encodeQrPayload {p : SetupPayload} (h : p.validate = .ok ()) :
    parseQrPayload (qrCodePrefix ++ base38Encode (writePayload p)) = .ok p := by
  have hdrop : Text.dropPrefix? qrCodePrefix (qrCodePrefix ++ base38Encode (writePayload p)) =
      some (base38Encode (writePayload p)) := Text.dropPrefix?_eq_some_iff.mpr rfl
  have hlen : ¬(writePayload p).length * 8 < totalPayloadDataSizeBits := by
    rw [(writePayload_spec p).1]
    decide
  rw [parseQrPayload, hdrop]
  dsimp only
  rw [base38Decode_base38Encode, Except.bind_eq_ok_iff]
  refine ⟨_, rfl, ?_⟩
  rw [if_neg hlen, readPayload_writePayload h]
  exact Except.bind_eq_ok_iff.mpr ⟨p, rfl, Except.bind_eq_ok_iff.mpr ⟨(), h, rfl⟩⟩

theorem encodeQrPayload_parseQrPayload {s : String} {p : SetupPayload}
    (h : parseQrPayload s = .ok p) (hexact : CarriesExactly s) :
    encodeQrPayload p = .ok s ↔ GroupsFit (qrBody s) := by
  obtain ⟨bytes, hs, hbytes, hread, hvalid⟩ := parseQrPayload_eq_ok h
  obtain ⟨bytes', hbytes', hlen, hpad⟩ := hexact
  obtain rfl : bytes = bytes' := Except.ok.inj (hbytes.symm.trans hbytes')
  have hlen' : bytes.length = 11 := by
    unfold totalPayloadDataSizeBits at hlen
    omega
  have hlt : number bytes < 2 ^ 84 := by
    have hall := number_lt bytes
    rw [toNat_getD, Nat.shiftRight_eq_div_pow] at hpad
    rw [hlen'] at hall
    omega
  rw [encodeQrPayload_of_validate hvalid, writePayload_readPayload hread hlen' hlt,
    ← base38Encode_base38Decode hbytes, Except.ok.injEq]
  conv_lhs => rw [← hs]
  exact String.append_right_inj _

/-- Encoding and then decoding changes nothing, for bytes and for payloads.  Decoding and then
encoding changes nothing either if and only if every group of the text spells a number that fits,
and these are the texts that decode and that encoding can give. -/
theorem qr_faithful_iff (bs : Bytes) (s : String) (p : SetupPayload) :
    base38Decode (base38Encode bs) = .ok bs ∧
      (base38Decode s = .ok bs →
        ((∃ bs', base38Encode bs' = s) ↔ GroupsFit s) ∧
          (base38Encode bs = s ↔ GroupsFit s)) ∧
      (p.validate = .ok () → encodeQrPayload p >>= parseQrPayload = .ok p) ∧
      (parseQrPayload s = .ok p → CarriesExactly s →
        (encodeQrPayload p = .ok s ↔ GroupsFit (qrBody s))) := by
  refine ⟨base38Decode_base38Encode bs, fun h => ⟨?_, base38Encode_base38Decode h⟩,
    fun h => ?_, encodeQrPayload_parseQrPayload⟩
  · constructor
    · rintro ⟨bs', rfl⟩
      exact (base38Encode_base38Decode (base38Decode_base38Encode bs')).mp rfl
    · exact fun hfit => ⟨bs, (base38Encode_base38Decode h).mpr hfit⟩
  · exact Except.bind_eq_ok_iff.mpr
      ⟨_, encodeQrPayload_of_validate h, parseQrPayload_encodeQrPayload h⟩

/-- Two full stops spell 1443 and decode to the byte 163, which is encoded otherwise. -/
theorem qr_overfull :
    ¬∀ s bs, base38Decode s = .ok bs → base38Encode bs = s := by
  intro h
  have hdecode : base38Decode ".." = .ok [163] := by decide
  have hencode : base38Encode [163] ≠ ".." := by decide
  exact hencode (h _ _ hdecode)

end CaveHome.Matter
