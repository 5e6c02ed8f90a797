import CaveHome.Lib.Dict
import CaveHome.Lib.TokenBucket
import Mathlib.Algebra.Order.Field.Rat
import Mathlib.Tactic.Ring

/-!
# The rate limit

Each source of requests has a bucket of its own, which counts thousandths of tokens.  The sums and
products of the source stop at the largest number of 64 bits, which is no less than the capacity of
a bucket, so a bucket holds what an ideal one does.
-/

namespace CaveHome.Traefik

open TokenBucket (Bucket Left taken)

def MILLI : Nat := 1000

/-- The largest number of 64 bits. -/
def U64_MAX : Nat := 18446744073709551615

def saturatingMul (a b : Nat) : Nat := min U64_MAX (a * b)

def saturatingAdd (a b : Nat) : Nat := min U64_MAX (a + b)

structure TokenBucket where
  capacityMilli : Nat
  refillMilliPerMs : Nat
  tokensMilli : Nat
  lastMs : Nat
  unlimited : Bool

namespace TokenBucket

def new (averagePerSec burst : Nat) : TokenBucket where
  capacityMilli := saturatingMul (max burst 1) MILLI
  refillMilliPerMs := averagePerSec
  tokensMilli := saturatingMul (max burst 1) MILLI
  lastMs := 0
  unlimited := averagePerSec = 0

/-- The thousandths of a token in the bucket at a time. -/
def refilled (b : TokenBucket) (nowMs : Nat) : Nat :=
  let elapsed := nowMs - b.lastMs
  let refill := saturatingMul elapsed b.refillMilliPerMs
  min (saturatingAdd b.tokensMilli refill) b.capacityMilli

/-- Is a request admitted? -/
def allow (b : TokenBucket) (nowMs : Nat) : Bool × TokenBucket :=
  if b.unlimited then (true, b)
  else if MILLI ≤ b.refilled nowMs then
    (true, { b with tokensMilli := b.refilled nowMs - MILLI, lastMs := nowMs })
  else (false, { b with tokensMilli := b.refilled nowMs, lastMs := nowMs })

/-- The answers to requests one after the other, each with its time. -/
def answers (b : TokenBucket) : List Nat → List (Nat × Bool)
  | [] => []
  | now :: times => (now, (b.allow now).1) :: answers (b.allow now).2 times

end TokenBucket

structure RateLimiter where
  averagePerSec : Nat
  burst : Nat
  buckets : Dict String TokenBucket

namespace RateLimiter

def new (averagePerSec burst : Nat) : RateLimiter := ⟨averagePerSec, burst, ∅⟩

/-- The bucket of a key, which is a new one at first sight. -/
def bucket (limiter : RateLimiter) (key : String) : TokenBucket :=
  (limiter.buckets.lookup key).getD (.new limiter.averagePerSec limiter.burst)

def allow (limiter : RateLimiter) (key : String) (nowMs : Nat) : Bool × RateLimiter :=
  let (admitted, bucket) := (limiter.bucket key).allow nowMs
  (admitted, { limiter with buckets := limiter.buckets.insert key bucket })

/-- The answers to the calls of all keys. -/
def answers (limiter : RateLimiter) : List (String × Nat) → List (String × Nat × Bool)
  | [] => []
  | (key, now) :: calls =>
    (key, now, (limiter.allow key now).1) :: answers (limiter.allow key now).2 calls

/-- The times of the calls of a key. -/
def timesOf (key : String) (calls : List (String × Nat)) : List Nat :=
  (calls.filter fun call => call.1 = key).map (·.2)

/-- The answers to the calls of a key. -/
def answersOf (key : String) (answers : List (String × Nat × Bool)) : List (Nat × Bool) :=
  (answers.filter fun answer => answer.1 = key).map (·.2)

theorem bucket_allow (limiter : RateLimiter) (key key' : String) (now : Nat) :
    (limiter.allow key now).2.bucket key' =
      if key = key' then ((limiter.bucket key).allow now).2 else limiter.bucket key' := by
  change (AList.lookup key' (AList.insert key ((limiter.bucket key).allow now).2
    limiter.buckets)).getD _ = _
  rw [Dict.lookup_insert_if]
  split <;> rfl

theorem answersOf_answers (limiter : RateLimiter) (key : String) (calls : List (String × Nat)) :
    answersOf key (limiter.answers calls) = (limiter.bucket key).answers (timesOf key calls) := by
  induction calls generalizing limiter with
  | nil => rfl
  | cons call calls ih =>
    obtain ⟨key', now⟩ := call
    have hrest := ih (limiter.allow key' now).2
    rw [bucket_allow] at hrest
    unfold answersOf timesOf at hrest ⊢
    rw [answers]
    by_cases hkey : key' = key
    · subst hkey
      rw [if_pos rfl] at hrest
      rw [List.filter_cons_of_pos (by simp), List.filter_cons_of_pos (by simp), List.map_cons,
        List.map_cons, TokenBucket.answers, hrest]
      rfl
    · rw [if_neg hkey] at hrest
      rw [List.filter_cons_of_neg (by simpa using hkey),
        List.filter_cons_of_neg (by simpa using hkey), hrest]

end RateLimiter

/-! ## The ideal bucket -/

namespace TokenBucket

/-- The bucket that is filled continuously, in tokens and seconds. -/
def ideal (averagePerSec burst : Nat) : Bucket ℚ where
  capacity := (max burst 1 : Nat)
  rate := averagePerSec

/-- A time in seconds. -/
def seconds (ms : Nat) : ℚ := ms / 1000

/-- The bucket holds what an ideal one does. -/
structure Holds (averagePerSec burst : Nat) (b : TokenBucket) (s : Left ℚ) : Prop where
  limited : b.unlimited = false
  capacity : b.capacityMilli = max burst 1 * 1000
  rate : b.refillMilliPerMs = averagePerSec
  level_nonneg : 0 ≤ s.level
  since_le : s.since ≤ seconds b.lastMs
  tokens : (b.tokensMilli : ℚ) / 1000 = (ideal averagePerSec burst).holds s (seconds b.lastMs)

variable {averagePerSec burst : Nat} {b : TokenBucket} {s : Left ℚ} {now : Nat}

theorem refilled_eq (h : b.capacityMilli ≤ U64_MAX) (now : Nat) :
    b.refilled now =
      min b.capacityMilli (b.tokensMilli + (now - b.lastMs) * b.refillMilliPerMs) := by
  unfold refilled saturatingAdd saturatingMul
  dsimp only
  generalize (now - b.lastMs) * b.refillMilliPerMs = refill
  omega

theorem holds_new (haverage : 0 < averagePerSec) (hburst : 1000 * burst < 2 ^ 64) :
    Holds averagePerSec burst (new averagePerSec burst)
      ⟨(ideal averagePerSec burst).capacity, 0⟩ := by
  have hcapacity : saturatingMul (max burst 1) MILLI = max burst 1 * 1000 :=
    min_eq_right (by unfold MILLI U64_MAX; omega)
  have hpos : (0 : ℚ) ≤ (ideal averagePerSec burst).capacity := Nat.cast_nonneg _
  refine ⟨decide_eq_false haverage.ne', hcapacity, rfl, hpos, le_of_eq (by simp [seconds, new]), ?_⟩
  have htokens : (new averagePerSec burst).tokensMilli = max burst 1 * 1000 := hcapacity
  rw [htokens, Bucket.holds, Bucket.fill]
  simp [seconds, new, ideal]

theorem Holds.refilled_eq (h : Holds averagePerSec burst b s) (hburst : 1000 * burst < 2 ^ 64)
    (hnow : b.lastMs ≤ now) :
    (b.refilled now : ℚ) / 1000 = (ideal averagePerSec burst).holds s (seconds now) := by
  have hcapacity : b.capacityMilli ≤ U64_MAX := by
    rw [h.capacity]
    unfold U64_MAX
    omega
  have helapsed : seconds now - s.since =
      (seconds b.lastMs - s.since) + (seconds now - seconds b.lastMs) := by ring
  have hlater : (0 : ℚ) ≤ seconds now - seconds b.lastMs := by
    unfold seconds
    rw [← sub_div, ← Nat.cast_sub hnow]
    positivity
  have hrate : (0 : ℚ) ≤ (ideal averagePerSec burst).rate := Nat.cast_nonneg _
  have htokens := h.tokens
  unfold Bucket.holds at htokens
  rw [Bucket.holds, helapsed, ← Bucket.fill_fill hrate hlater, ← htokens, Bucket.fill,
    TokenBucket.refilled_eq hcapacity, h.capacity, h.rate]
  unfold ideal seconds
  dsimp only
  push_cast [Nat.cast_sub hnow]
  rw [← min_div_div_right (by norm_num : (0 : ℚ) ≤ 1000)]
  congr 1
  · ring
  · ring

theorem Holds.allow (h : Holds averagePerSec burst b s) (hburst : 1000 * burst < 2 ^ 64)
    (hnow : b.lastMs ≤ now) :
    (b.allow now).1 = ((ideal averagePerSec burst).request s (seconds now)).1 ∧
      Holds averagePerSec burst (b.allow now).2
        ((ideal averagePerSec burst).request s (seconds now)).2 ∧ (b.allow now).2.lastMs = now := by
  have hrefilled := h.refilled_eq hburst hnow
  have hone : (1 : ℚ) ≤ (b.refilled now : ℚ) / 1000 ↔ MILLI ≤ b.refilled now := by
    rw [le_div_iff₀ (by norm_num), one_mul]
    exact_mod_cast Iff.rfl
  rw [hrefilled] at hone
  unfold TokenBucket.allow
  rw [h.limited, if_neg Bool.false_ne_true]
  by_cases hadmit : MILLI ≤ b.refilled now
  · rw [if_pos hadmit, Bucket.request_of_le (hone.mpr hadmit)]
    refine ⟨rfl, ⟨rfl, h.capacity, h.rate, sub_nonneg.mpr (hone.mpr hadmit), le_rfl, ?_⟩, rfl⟩
    have hle : (ideal averagePerSec burst).holds s (seconds now) ≤
        (ideal averagePerSec burst).capacity := Bucket.holds_le
    rw [Bucket.holds, Bucket.fill, sub_self, mul_zero, add_zero,
      min_eq_right (by dsimp only; linarith)]
    dsimp only
    rw [Nat.cast_sub hadmit, ← hrefilled, sub_div]
    unfold MILLI
    norm_num
  · rw [if_neg hadmit, Bucket.request_of_lt (not_le.mp (mt hone.mp hadmit))]
    have hlast : s.since ≤ seconds now := by
      refine h.since_le.trans ?_
      unfold seconds
      exact div_le_div_of_nonneg_right (Nat.cast_le.mpr hnow) (by norm_num)
    exact ⟨rfl, ⟨rfl, h.capacity, h.rate, h.level_nonneg, hlast, hrefilled⟩, rfl⟩

theorem Holds.answers (h : Holds averagePerSec burst b s) (hburst : 1000 * burst < 2 ^ 64)
    {times : List Nat} (hsorted : (b.lastMs :: times).Pairwise (· ≤ ·)) :
    (b.answers times).map (fun a => (seconds a.1, a.2)) =
      (ideal averagePerSec burst).answers s (times.map seconds) := by
  induction times generalizing b s with
  | nil => rfl
  | cons now times ih =>
    obtain ⟨hhead, htail⟩ := List.pairwise_cons.mp hsorted
    obtain ⟨hanswer, hholds, hlast⟩ := h.allow hburst (hhead now List.mem_cons_self)
    rw [TokenBucket.answers, List.map_cons, List.map_cons, Bucket.answers, hanswer,
      ih hholds (by rwa [hlast])]

end TokenBucket

/-! ## The limiter -/

theorem seconds_le_iff {ms ms' : Nat} :
    TokenBucket.seconds ms ≤ TokenBucket.seconds ms' ↔ ms ≤ ms' := by
  unfold TokenBucket.seconds
  rw [div_le_div_iff_of_pos_right (by norm_num), Nat.cast_le]

theorem taken_seconds (first last : Nat) (answers : List (Nat × Bool)) :
    taken (TokenBucket.seconds first) (TokenBucket.seconds last)
      (answers.map fun a => (TokenBucket.seconds a.1, a.2)) = taken first last answers := by
  unfold taken
  rw [List.countP_map]
  refine List.countP_congr fun a _ => ?_
  simp only [Function.comp_apply, seconds_le_iff]

/-- A key is answered as an ideal bucket of its own answers it, whatever the other keys do, and in
every window no more is admitted than the burst and what flows in. -/
theorem RateLimiter.answers_exact {averagePerSec burst : Nat} (haverage : 0 < averagePerSec)
    (hburst : 1000 * burst < 2 ^ 64) {key : String} {calls : List (String × Nat)}
    (hsorted : (timesOf key calls).Pairwise (· ≤ ·)) :
    (∀ first d, 1000 * taken first (first + d)
        (answersOf key ((new averagePerSec burst).answers calls)) ≤
      1000 * max burst 1 + averagePerSec * d) ∧
    (answersOf key ((new averagePerSec burst).answers calls)).map
        (fun a => (TokenBucket.seconds a.1, a.2)) =
      (TokenBucket.ideal averagePerSec burst).answers
        ⟨(TokenBucket.ideal averagePerSec burst).capacity, 0⟩
        ((timesOf key calls).map TokenBucket.seconds) ∧
    ∀ calls', timesOf key calls' = timesOf key calls →
      answersOf key ((new averagePerSec burst).answers calls') =
        answersOf key ((new averagePerSec burst).answers calls) := by
  have hbucket : (new averagePerSec burst).bucket key = .new averagePerSec burst := rfl
  have hideal := (TokenBucket.holds_new haverage hburst).answers hburst
    (List.pairwise_cons.mpr ⟨fun t _ => Nat.zero_le t, hsorted⟩)
  refine ⟨fun first d => ?_, ?_, fun calls' hcalls => ?_⟩
  · have hrate : (0 : ℚ) ≤ (TokenBucket.ideal averagePerSec burst).rate := Nat.cast_nonneg _
    have hcapacity : (0 : ℚ) ≤ (TokenBucket.ideal averagePerSec burst).capacity :=
      Nat.cast_nonneg _
    have hsorted' : ((timesOf key calls).map TokenBucket.seconds).Pairwise (· ≤ ·) :=
      List.pairwise_map.mpr (hsorted.imp seconds_le_iff.mpr)
    have htaken := Bucket.taken_le
      (s := ⟨(TokenBucket.ideal averagePerSec burst).capacity, 0⟩) hrate hcapacity
      (seconds_le_iff.mpr (Nat.le_add_right first d)) hsorted'
    rw [← hideal, taken_seconds] at htaken
    rw [answersOf_answers, hbucket]
    unfold TokenBucket.seconds TokenBucket.ideal at htaken
    dsimp only at htaken
    have hcast : (1000 * taken first (first + d)
        ((TokenBucket.new averagePerSec burst).answers (timesOf key calls)) : ℚ) ≤
        1000 * (max burst 1 : Nat) + averagePerSec * d := by
      rw [Nat.cast_add] at htaken
      linarith
    exact_mod_cast hcast
  · rw [answersOf_answers, hbucket]
    exact hideal
  · rw [answersOf_answers, answersOf_answers, hcalls]

/-- One key is polled between two requests that are admitted, and another key has its own bucket. -/
theorem RateLimiter.answers_exact_polled :
    1000 * taken 0 (0 + 100) (answersOf "a" ((new 10 1).answers
        [("a", 0), ("a", 33), ("b", 50), ("a", 66), ("a", 100)])) ≤ 1000 * max 1 1 + 10 * 100 :=
  (answers_exact (by decide) (by decide) (by decide)).1 0 100

end CaveHome.Traefik
