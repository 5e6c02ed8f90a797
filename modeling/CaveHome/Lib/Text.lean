import Mathlib.Algebra.Group.Int.Defs
import Mathlib.Algebra.Group.Nat.Defs

/-!
# Text

Cutting, trimming and reading text the way the standard library of the source does.
-/

namespace CaveHome.Text

/-- The characters with the Unicode property `White_Space`. -/
def isWhitespace (c : Char) : Bool :=
  let n := c.toNat
  (0x09 ≤ n && n ≤ 0x0D) || n == 0x20 || n == 0x85 || n == 0xA0 || n == 0x1680 ||
    (0x2000 ≤ n && n ≤ 0x200A) || n == 0x2028 || n == 0x2029 || n == 0x202F || n == 0x205F ||
    n == 0x3000

def trim (s : List Char) : List Char :=
  ((s.dropWhile isWhitespace).reverse.dropWhile isWhitespace).reverse

/-- The text before and after the first occurrence of a separator. -/
def splitOnce (sep : List Char) : List Char → Option (List Char × List Char)
  | [] => if sep = [] then some ([], []) else none
  | c :: s =>
    if sep.isPrefixOf (c :: s) then some ([], (c :: s).drop sep.length)
    else (splitOnce sep s).map fun p => (c :: p.1, p.2)

theorem splitOnce_append {sep s : List Char} {p : List Char × List Char}
    (h : splitOnce sep s = some p) : p.1 ++ sep ++ p.2 = s := by
  induction s generalizing p with
  | nil =>
    rw [splitOnce] at h
    split at h
    next hsep => rw [← Option.some.inj h, hsep]; rfl
    next => cases h
  | cons c s ih =>
    rw [splitOnce] at h
    split at h
    next hpre =>
      rw [← Option.some.inj h]
      exact List.prefix_iff_eq_append.mp (List.isPrefixOf_iff_prefix.mp hpre)
    next =>
      obtain ⟨q, hq, rfl⟩ := Option.map_eq_some_iff.mp h
      exact congrArg (List.cons c) (ih hq)

theorem isPrefixOf_singleton (c x : Char) (s : List Char) : [c].isPrefixOf (x :: s) = (c == x) := by
  simp [List.isPrefixOf]

theorem splitOnce_of_not_mem {c : Char} {s : List Char} (h : c ∉ s) :
    splitOnce [c] s = none := by
  induction s with
  | nil => rfl
  | cons x s ih =>
    obtain ⟨hx, hs⟩ := not_or.mp fun hc => h (List.mem_cons.mpr hc)
    rw [splitOnce, isPrefixOf_singleton, if_neg (by simpa using hx), ih hs]
    rfl

theorem splitOnce_cut {c : Char} {a : List Char} (h : c ∉ a) (b : List Char) :
    splitOnce [c] (a ++ c :: b) = some (a, b) := by
  induction a with
  | nil =>
    rw [List.nil_append, splitOnce, isPrefixOf_singleton, if_pos (by simp)]
    rfl
  | cons x a ih =>
    obtain ⟨hx, ha⟩ := not_or.mp fun hc => h (List.mem_cons.mpr hc)
    rw [List.cons_append, splitOnce, isPrefixOf_singleton, if_neg (by simpa using hx), ih ha]
    rfl

theorem eq_of_splitOnce {c : Char} {s a b : List Char} (h : splitOnce [c] s = some (a, b)) :
    s = a ++ c :: b := by
  have hs := splitOnce_append h
  rw [← hs, List.append_assoc]
  rfl

/-! A word between two quotes is found where it stands, also when other words in quotes come before
it. -/

section Quoted

variable {q : Char}

/-- Words, each with a quote after it. -/
def quoted (q : Char) (words : List (List Char)) (rest : List Char) : List Char :=
  words.foldr (fun word s => word ++ q :: s) rest

theorem quoted_append (q : Char) (words words' : List (List Char)) (rest : List Char) :
    quoted q (words ++ words') rest = quoted q words (quoted q words' rest) :=
  List.foldr_append

theorem takeWhile_ne {word : List Char} (h : q ∉ word) (rest : List Char) :
    (word ++ q :: rest).takeWhile (· ≠ q) = word := by
  have hword : ∀ c ∈ word, decide (c ≠ q) = true := fun c hc =>
    decide_eq_true fun heq => h (heq ▸ hc)
  rw [List.takeWhile_append_of_pos hword, List.takeWhile_cons_of_neg (by simp), List.append_nil]

theorem splitOnce_takeWhile (s rest : List Char) :
    (splitOnce [q] (s ++ q :: rest)).map Prod.fst = some (s.takeWhile (· ≠ q)) := by
  induction s with
  | nil =>
    have hcut := splitOnce_cut (List.not_mem_nil (a := q)) rest
    rw [hcut]
    rfl
  | cons c s ih =>
    rw [List.cons_append, splitOnce, isPrefixOf_singleton]
    by_cases hc : c = q
    · rw [if_pos (by simp [hc]), List.takeWhile_cons_of_neg (by simp [hc])]
      rfl
    · rw [if_neg (by simpa using Ne.symm hc), List.takeWhile_cons_of_pos (by simpa using hc),
        Option.map_map]
      cases hcut : splitOnce [q] (s ++ q :: rest) with
      | none => rw [hcut] at ih; cases ih
      | some p =>
        rw [hcut] at ih
        exact congrArg some (congrArg (List.cons c) (Option.some.inj ih))

theorem splitOnce_skip {sep front : List Char} (hfront : q ∉ front) (s : List Char) :
    (splitOnce (q :: sep) (front ++ s)).map Prod.snd = (splitOnce (q :: sep) s).map Prod.snd := by
  induction front with
  | nil => rfl
  | cons c front ih =>
    obtain ⟨hc, hfront⟩ := not_or.mp fun h => hfront (List.mem_cons.mpr h)
    have hno : ¬ (q :: sep).isPrefixOf (c :: (front ++ s)) = true := by
      rw [List.isPrefixOf, beq_eq_false_iff_ne.mpr hc]
      exact Bool.false_ne_true
    rw [List.cons_append, splitOnce, if_neg hno, Option.map_map, ← ih hfront]
    rfl

theorem splitOnce_quoted {word after : List Char} (hword : q ∉ word) {words : List (List Char)}
    (hwords : ∀ w ∈ words, q ∉ w ∧ w ≠ word) {front : List Char} (hfront : q ∉ front)
    (rest : List Char) :
    (splitOnce (q :: (word ++ q :: after))
      (front ++ q :: quoted q words (word ++ q :: (after ++ rest)))).map Prod.snd = some rest := by
  induction words generalizing front with
  | nil =>
    have hpre : (q :: (word ++ q :: after)).isPrefixOf
        (q :: (word ++ q :: (after ++ rest))) = true :=
      List.isPrefixOf_iff_prefix.mpr ⟨rest, by simp⟩
    rw [splitOnce_skip hfront, quoted, List.foldr_nil, splitOnce, if_pos hpre]
    simp
  | cons w words ih =>
    obtain ⟨⟨hw, hne⟩, hwords⟩ := List.forall_mem_cons.mp hwords
    have hno : ¬ (q :: (word ++ q :: after)).isPrefixOf
        (q :: quoted q (w :: words) (word ++ q :: (after ++ rest))) = true := by
      intro hpre
      obtain ⟨t, ht⟩ := List.isPrefixOf_iff_prefix.mp hpre
      have hsame : word ++ q :: (after ++ t) =
          w ++ q :: quoted q words (word ++ q :: (after ++ rest)) := by
        simpa [quoted] using ht
      have hcut := congrArg (List.takeWhile (· ≠ q)) hsame
      rw [takeWhile_ne hword, takeWhile_ne hw] at hcut
      exact hne hcut.symm
    rw [splitOnce_skip hfront, splitOnce, if_neg hno, Option.map_map, ← ih hwords hw]
    rfl

end Quoted

/-- The pieces between the occurrences of a character. -/
def split (sep : Char) (s : String) : List String := (s.toList.splitOn sep).map String.ofList

/-- Put `c` for each occurrence of `a` and `b` in a row. -/
def replacePair (a b c : Char) : List Char → List Char
  | x :: y :: s =>
    if x = a ∧ y = b then c :: replacePair a b c s else x :: replacePair a b c (y :: s)
  | s => s

def digit (c : Char) : Option Nat :=
  if 0x30 ≤ c.toNat ∧ c.toNat ≤ 0x39 then some (c.toNat - 0x30) else none

def digits : List Char → Nat → Option Nat
  | [], acc => some acc
  | c :: s, acc => do digits s (acc * 10 + (← digit c))

theorem lt_of_digits {s : List Char} {acc n : Nat} (h : digits s acc = some n) :
    n < (acc + 1) * 10 ^ s.length := by
  induction s generalizing acc with
  | nil =>
    obtain rfl := Option.some.inj h
    simp
  | cons c s ih =>
    rw [digits] at h
    obtain ⟨d, hd, hrest⟩ := Option.bind_eq_some_iff.mp h
    have hlt : d ≤ 9 := by
      unfold digit at hd
      split at hd
      · have heq := Option.some.inj hd
        omega
      · cases hd
    calc n < (acc * 10 + d + 1) * 10 ^ s.length := ih hrest
      _ ≤ ((acc + 1) * 10) * 10 ^ s.length := Nat.mul_le_mul_right _ (by omega)
      _ = (acc + 1) * 10 ^ (c :: s).length := by
        rw [List.length_cons, Nat.pow_succ, Nat.mul_assoc, Nat.mul_comm 10]

/-- An unsigned 64-bit number in decimal, which may have a plus sign in front. -/
def parseU64 (s : String) : Option Nat := do
  let s := if s.toList.head? = some '+' then s.toList.tail else s.toList
  if s = [] then none
  let n ← digits s 0
  if n ≤ 18446744073709551615 then some n else none

/-- A signed 32-bit number in decimal, which may have a sign in front. -/
def parseI32 (s : String) : Option Int := do
  let negative := s.toList.head? = some '-'
  let s := if negative ∨ s.toList.head? = some '+' then s.toList.tail else s.toList
  if s = [] then none
  let n ← digits s 0
  if negative then if n ≤ 2147483648 then some (-(n : Int)) else none
  else if n ≤ 2147483647 then some (n : Int) else none

theorem mem_of_parseI32 {s : List Char} {n : Int} (hminus : s.head? ≠ some '-')
    (h : parseI32 (String.ofList s) = some n) : 0 ≤ n ∧ n < 10 ^ s.length := by
  have hread : ∃ t m, t.length ≤ s.length ∧ digits t 0 = some m ∧ (m : Int) = n := by
    have hlen : (if s.head? = some '+' then s.tail else s).length ≤ s.length := by
      split
      · rw [List.length_tail]
        omega
      · exact Nat.le_refl _
    rw [parseI32, String.toList_ofList] at h
    simp only [hminus, false_or, if_false] at h
    generalize (if s.head? = some '+' then s.tail else s) = t at h hlen
    by_cases hnil : t = []
    · rw [if_pos hnil] at h
      cases h
    · rw [if_neg hnil] at h
      obtain ⟨m, hm, h⟩ := Option.bind_eq_some_iff.mp h
      refine ⟨t, m, hlen, hm, ?_⟩
      split at h
      · exact Option.some.inj h
      · cases h
  obtain ⟨t, m, hlen, hdigits, rfl⟩ := hread
  have hlt := lt_of_digits hdigits
  have hpow : 10 ^ t.length ≤ 10 ^ s.length := Nat.pow_le_pow_right (by decide) hlen
  refine ⟨Int.natCast_nonneg m, ?_⟩
  exact_mod_cast (by omega : m < 10 ^ s.length)

theorem toString_injective {m n : Nat} (h : toString m = toString n) : m = n := by
  have hdigits : Nat.toDigits 10 m = Nat.toDigits 10 n := by
    rw [← Nat.toList_repr, ← Nat.toList_repr]
    exact congrArg String.toList h
  calc m = Nat.ofDigitChars 10 (Nat.toDigits 10 m) 0 := Nat.ofDigitChars_ten_toDigits.symm
    _ = n := by rw [hdigits, Nat.ofDigitChars_ten_toDigits]

/-- The text in quotes, with escapes for quotes, backslashes and control characters. -/
def debug (s : String) : String :=
  let escape (c : Char) : List Char :=
    match c with
    | '"' => ['\\', '"']
    | '\\' => ['\\', '\\']
    | '\n' => ['\\', 'n']
    | '\r' => ['\\', 'r']
    | '\t' => ['\\', 't']
    | '\x00' => ['\\', '0']
    | c =>
      if c.toNat < 0x20 ∨ c.toNat = 0x7F then
        ['\\', 'u', '\x7b'] ++ Nat.toDigits 16 c.toNat ++ ['\x7d']
      else [c]
  String.ofList ('"' :: s.toList.flatMap escape ++ ['"'])

/-- A character of one byte in single quotes, with escapes for those that are not printable. -/
def debugChar (c : Char) : String :=
  let escape : List Char :=
    match c with
    | '\'' => ['\\', '\'']
    | '\\' => ['\\', '\\']
    | '\n' => ['\\', 'n']
    | '\r' => ['\\', 'r']
    | '\t' => ['\\', 't']
    | '\x00' => ['\\', '0']
    | c =>
      if c.toNat < 0x20 ∨ (0x7F ≤ c.toNat ∧ c.toNat ≤ 0xA0) ∨ c.toNat = 0xAD then
        ['\\', 'u', '\x7b'] ++ Nat.toDigits 16 c.toNat ++ ['\x7d']
      else [c]
  String.ofList ('\'' :: escape ++ ['\''])

/-- The rest of a text that begins with the other one. -/
def dropPrefix? (start s : String) : Option String :=
  if start.toList.isPrefixOf s.toList then some (String.ofList (s.toList.drop start.length))
  else none

theorem dropPrefix?_eq_some_iff {start s rest : String} :
    dropPrefix? start s = some rest ↔ start ++ rest = s := by
  unfold dropPrefix?
  constructor
  · intro h
    split at h
    next hpre =>
      obtain ⟨t, ht⟩ := List.isPrefixOf_iff_prefix.mp hpre
      rw [← Option.some.inj h, ← ht, ← String.length_toList, List.drop_left]
      rw [← String.toList_inj, String.toList_append, String.toList_ofList, ht]
    next => cases h
  · rintro rfl
    rw [String.toList_append, if_pos (List.isPrefixOf_iff_prefix.mpr ⟨rest.toList, rfl⟩),
      ← String.length_toList, List.drop_left, String.ofList_toList]

end CaveHome.Text
