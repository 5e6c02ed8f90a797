import Mathlib.Data.List.Basic
import Mathlib.Tactic.Common

/-!
# Delimited streams

A sender closes each frame with a delimiter that does not occur inside the frame.  A receiver keeps
what came after the last delimiter, and whenever bytes arrive it takes one body after the other: an
empty body is skipped, a body that decodes gives a frame, and the first body that does not decode
ends the call with an error.  The frames of that call are then lost, and the bodies behind the
rejected one wait for the next call.
-/

namespace Delimited

variable {τ ε α : Type}

/-- One call of the receiver on what it has buffered, with the frames of this call so far. -/
def drain [DecidableEq τ] (d : τ) (decode : List τ → Except ε α) :
    Nat → List τ → List α → Except ε (List α) × List τ
  | 0, buf, out => (.ok out, buf)
  | fuel + 1, buf, out =>
    match buf.findIdx? (· == d) with
    | none => (.ok out, buf)
    | some stop =>
      let body := buf.take stop
      let rest := buf.drop (stop + 1)
      if body = [] then drain d decode fuel rest out
      else
        match decode body with
        | .error e => (.error e, rest)
        | .ok frame => drain d decode fuel rest (out ++ [frame])

def feed [DecidableEq τ] (d : τ) (decode : List τ → Except ε α) (buf chunk : List τ) :
    Except ε (List α) × List τ :=
  drain d decode (buf ++ chunk).length (buf ++ chunk) []

/-- The results of successive calls. -/
def feeds (feed : List τ → List τ → Except ε (List α) × List τ) :
    List τ → List (List τ) → List (Except ε (List α))
  | _, [] => []
  | buf, chunk :: chunks => (feed buf chunk).1 :: feeds feed (feed buf chunk).2 chunks

/-- The frames that a call hands to its caller. -/
def returned : Except ε (List α) → List α
  | .ok frames => frames
  | .error _ => []

/-! ## Streams of bodies -/

/-- What is on the line for a list of bodies. -/
def stream (d : τ) (bodies : List (List τ)) : List τ :=
  bodies.flatMap (· ++ [d])

variable {d : τ}

@[simp] theorem stream_nil : stream d [] = [] := rfl

@[simp] theorem stream_cons (body : List τ) (bodies : List (List τ)) :
    stream d (body :: bodies) = body ++ d :: stream d bodies := by
  simp [stream]

theorem stream_append (as bs : List (List τ)) : stream d (as ++ bs) = stream d as ++ stream d bs :=
  List.flatMap_append

theorem length_le_stream (bodies : List (List τ)) : bodies.length ≤ (stream d bodies).length := by
  induction bodies with
  | nil => simp
  | cons body bodies ih =>
    simp only [List.length_cons, stream_cons, List.length_append]
    omega

variable [DecidableEq τ] {decode : List τ → Except ε α}

theorem findIdx?_none {xs : List τ} (h : d ∉ xs) : xs.findIdx? (· == d) = none := by
  rw [List.findIdx?_eq_none_iff]
  intro x hx
  have hne : x ≠ d := fun heq => h (heq ▸ hx)
  simp [hne]

theorem findIdx?_body {body : List τ} (h : d ∉ body) (rest : List τ) :
    (body ++ d :: rest).findIdx? (· == d) = some body.length := by
  rw [List.findIdx?_append, findIdx?_none h, List.findIdx?_cons]
  simp

theorem arrived {bodies : List (List τ)} (hb : ∀ b ∈ bodies, d ∉ b) :
    ∀ {x y : List τ}, x ++ y = stream d bodies →
      ∃ t, d ∉ t ∧ x = stream d (bodies.take (x.count d)) ++ t ∧
        t ++ y = stream d (bodies.drop (x.count d)) := by
  induction bodies with
  | nil =>
    intro x y h
    have hx : x = [] := (List.append_eq_nil_iff.1 h).1
    subst hx
    exact ⟨[], by simp, by simp, by simpa using h⟩
  | cons b bs ih =>
    intro x y h
    have hbd : d ∉ b := hb b List.mem_cons_self
    have hsplit : x ++ y = (b ++ [d]) ++ stream d bs := by
      rw [h]
      simp
    rcases List.append_eq_append_iff.1 hsplit with ⟨a, hba, hy⟩ | ⟨a, hxa, hst⟩
    · rcases List.eq_nil_or_concat a with rfl | ⟨a, z, rfl⟩
      · -- the delimiter of the first body is the last byte to have arrived
        have hx : x = b ++ [d] := by simpa using hba.symm
        have hcount : x.count d = 1 := by simp [hx, List.count_eq_zero_of_not_mem hbd]
        refine ⟨[], by simp, ?_, ?_⟩
        · rw [hcount]
          simp [hx]
        · rw [hcount]
          simpa using hy
      · -- it has not arrived
        have hb' : b = x ++ a := by
          have hsame : b ++ [d] = (x ++ a) ++ [z] := by simpa using hba
          exact (List.append_inj' hsame rfl).1
        have hx : d ∉ x := fun hd => hbd (hb' ▸ List.mem_append_left a hd)
        refine ⟨x, hx, ?_, ?_⟩
        · simp [List.count_eq_zero_of_not_mem hx]
        · simpa [List.count_eq_zero_of_not_mem hx] using h
    · obtain ⟨t, ht, hx, hrest⟩ :=
        ih (fun b' hb' => hb b' (List.mem_cons_of_mem b hb')) (x := a) (y := y) hst.symm
      have hcount : x.count d = a.count d + 1 := by
        simp [hxa, List.count_eq_zero_of_not_mem hbd]
      refine ⟨t, ht, ?_, ?_⟩
      · rw [hcount, List.take_succ_cons, stream_cons, hxa]
        simpa using hx
      · rw [hcount, List.drop_succ_cons]
        exact hrest

/-- What a call does with the bodies that are complete. -/
def serve (decode : List τ → Except ε α) :
    List (List τ) → List α → Except ε (List α) × List (List τ)
  | [], out => (.ok out, [])
  | body :: bodies, out =>
    if body = [] then serve decode bodies out
    else
      match decode body with
      | .error e => (.error e, bodies)
      | .ok frame => serve decode bodies (out ++ [frame])

theorem drain_stream {bodies : List (List τ)} (hb : ∀ b ∈ bodies, d ∉ b) {t : List τ}
    (ht : d ∉ t) : ∀ {fuel : Nat} (out : List α), bodies.length ≤ fuel →
      drain d decode fuel (stream d bodies ++ t) out =
        ((serve decode bodies out).1, stream d (serve decode bodies out).2 ++ t) := by
  induction bodies with
  | nil =>
    intro fuel out _
    cases fuel with
    | zero => rfl
    | succ fuel => simp [drain, serve, findIdx?_none ht]
  | cons b bs ih =>
    intro fuel out hfuel
    have hbs : ∀ b' ∈ bs, d ∉ b' := fun b' hb' => hb b' (List.mem_cons_of_mem b hb')
    cases fuel with
    | zero => simp at hfuel
    | succ fuel =>
      have hfuel' : bs.length ≤ fuel := by simpa using hfuel
      have hfind : (b ++ d :: (stream d bs ++ t)).findIdx? (· == d) = some b.length :=
        findIdx?_body (hb b List.mem_cons_self) _
      rw [stream_cons, List.append_assoc, List.cons_append]
      simp only [drain, hfind, serve]
      have htake : (b ++ d :: (stream d bs ++ t)).take b.length = b := by simp
      have hdrop : (b ++ d :: (stream d bs ++ t)).drop (b.length + 1) = stream d bs ++ t := by
        rw [← List.drop_drop]
        simp
      rw [htake, hdrop]
      by_cases hnil : b = []
      · rw [if_pos hnil, if_pos hnil]
        exact ih hbs out hfuel'
      · rw [if_neg hnil, if_neg hnil]
        cases decode b with
        | error e => rfl
        | ok frame => exact ih hbs (out ++ [frame]) hfuel'

theorem feed_stream (decode : List τ → Except ε α) {bodies : List (List τ)} (hb : ∀ b ∈ bodies, d ∉ b) {t : List τ}
    (ht : d ∉ t) {buf chunk : List τ} (hbuf : buf ++ chunk = stream d bodies ++ t) :
    feed d decode buf chunk =
      ((serve decode bodies []).1, stream d (serve decode bodies []).2 ++ t) := by
  unfold feed
  rw [hbuf]
  apply drain_stream hb ht
  rw [List.length_append]
  exact Nat.le_add_right_of_le (length_le_stream bodies)

/-! ## Frames and damage -/

/-- What stands before a delimiter: a frame, or bytes that are none. -/
inductive Segment (τ α : Type)
  | frame (a : α)
  | noise (body : List τ)

namespace Segment

def body (encode : α → List τ) : Segment τ α → List τ
  | frame a => encode a
  | noise body => body

/-- A frame decodes to itself; noise is empty or does not decode. -/
def Valid (d : τ) (decode : List τ → Except ε α) (encode : α → List τ) : Segment τ α → Prop
  | frame a => d ∉ encode a ∧ encode a ≠ [] ∧ decode (encode a) = .ok a
  | noise body => d ∉ body ∧ (body = [] ∨ ∃ e, decode body = .error e)

def frame? : Segment τ α → Option α
  | frame a => some a
  | noise _ => none

/-- Bytes that make the receiver give up. -/
def isDamage : Segment τ α → Bool
  | frame _ => false
  | noise body => !body.isEmpty

end Segment

/-- The frames among segments. -/
def frames (segs : List (Segment τ α)) : List α := segs.filterMap Segment.frame?

/-- The number of damaged bodies among segments. -/
def damage (segs : List (Segment τ α)) : Nat := segs.countP Segment.isDamage

/-- The segments whose delimiter arrives with each of the chunks. -/
def completions (d : τ) : List (Segment τ α) → List (List τ) → List (List (Segment τ α))
  | _, [] => []
  | segs, chunk :: chunks =>
    segs.take (chunk.count d) :: completions d (segs.drop (chunk.count d)) chunks

/-- A call that completes a frame neither completes a damaged body nor comes upon one that an
earlier call left over.  Each call uses up one damaged body; `n` of them are left over. -/
def Clear : Nat → List (List (Segment τ α)) → Prop
  | _, [] => True
  | n, segs :: rest => (0 < n + damage segs → frames segs = []) ∧ Clear (n + damage segs - 1) rest

section Segments

variable {encode : α → List τ}

omit [DecidableEq τ] in
theorem Segment.Valid.not_mem {seg : Segment τ α} (h : seg.Valid d decode encode) :
    d ∉ seg.body encode := by
  cases seg with
  | frame a => exact h.1
  | noise body => exact h.1

omit [DecidableEq τ] in
theorem serve_segments {segs : List (Segment τ α)} (h : ∀ s ∈ segs, s.Valid d decode encode) :
    ∀ out : List α,
      (damage segs = 0 ∧ serve decode (segs.map (Segment.body encode)) out =
        (.ok (out ++ frames segs), [])) ∨
      ∃ e before left, segs = before ++ left ∧ damage left + 1 = damage segs ∧
        serve decode (segs.map (Segment.body encode)) out =
          (.error e, left.map (Segment.body encode)) := by
  induction segs with
  | nil => exact fun out => .inl ⟨rfl, by simp [serve, frames]⟩
  | cons seg segs ih =>
    intro out
    have hseg : seg.Valid d decode encode := h seg List.mem_cons_self
    have hsegs := ih fun s hs => h s (List.mem_cons_of_mem seg hs)
    rw [List.map_cons]
    cases seg with
    | frame a =>
      have hserve : serve decode (encode a :: segs.map (Segment.body encode)) out =
          serve decode (segs.map (Segment.body encode)) (out ++ [a]) := by
        simp [serve, hseg.2.1, hseg.2.2]
      have hdamage : damage (.frame a :: segs) = damage segs := by simp [damage, Segment.isDamage]
      rw [Segment.body, hserve, hdamage]
      rcases hsegs (out ++ [a]) with ⟨hz, hr⟩ | ⟨e, before, left, heq, hd, hr⟩
      · exact .inl ⟨hz, by simp [hr, frames, Segment.frame?]⟩
      · exact .inr ⟨e, .frame a :: before, left, by rw [heq, List.cons_append], hd, hr⟩
    | noise body =>
      by_cases hnil : body = []
      · subst hnil
        have hdamage : damage ((.noise [] : Segment τ α) :: segs) = damage segs := by
          simp [damage, Segment.isDamage]
        have hframes : frames (Segment.noise [] :: segs) = frames segs := rfl
        rw [Segment.body, hdamage, hframes, serve, if_pos rfl]
        rcases hsegs out with hok | ⟨e, before, left, heq, hd, hr⟩
        · exact .inl hok
        · exact .inr ⟨e, .noise [] :: before, left, by rw [heq, List.cons_append], hd, hr⟩
      · obtain ⟨e, he⟩ := hseg.2.resolve_left hnil
        refine .inr ⟨e, [.noise body], segs, rfl, ?_, ?_⟩
        · have hdamaged : (.noise body : Segment τ α).isDamage = true := by
            simp [Segment.isDamage, hnil]
          rw [damage, damage, List.countP_cons_of_pos hdamaged]
        · rw [Segment.body, serve, if_neg hnil, he]

omit [DecidableEq τ] in
theorem frames_append (as bs : List (Segment τ α)) : frames (as ++ bs) = frames as ++ frames bs :=
  List.filterMap_append

omit [DecidableEq τ] in
theorem damage_append (as bs : List (Segment τ α)) : damage (as ++ bs) = damage as + damage bs :=
  List.countP_append

theorem returned_iff_clear {chunks : List (List τ)} : ∀ (pending segs : List (Segment τ α))
    (t : List τ), (∀ s ∈ pending ++ segs, s.Valid d decode encode) → d ∉ t →
    frames pending = [] →
    t ++ chunks.flatten = stream d (segs.map (Segment.body encode)) →
    ((feeds (feed d decode) (stream d (pending.map (Segment.body encode)) ++ t) chunks).map
        returned = (completions d segs chunks).map frames ↔
      Clear (damage pending) (completions d segs chunks)) := by
  induction chunks with
  | nil =>
    intro pending segs t _ _ _ _
    simp [feeds, completions, Clear]
  | cons chunk chunks ih =>
    intro pending segs t hvalid ht hpend hline
    have hmem : ∀ b ∈ segs.map (Segment.body encode), d ∉ b := by
      intro b hb
      obtain ⟨s, hs, rfl⟩ := List.mem_map.1 hb
      exact (hvalid s (List.mem_append_right pending hs)).not_mem
    have hcount : (t ++ chunk).count d = chunk.count d := by
      rw [List.count_append, List.count_eq_zero_of_not_mem ht, Nat.zero_add]
    -- the bodies that this call completes, and what is left of the line
    obtain ⟨u, hu, hx, hrest⟩ := arrived hmem (x := t ++ chunk) (y := chunks.flatten)
      (by rw [← hline, List.flatten_cons, List.append_assoc])
    rw [hcount, ← List.map_take] at hx
    rw [hcount, ← List.map_drop] at hrest
    generalize hk : chunk.count d = k at hx hrest
    have hvalidNow : ∀ s ∈ pending ++ segs.take k, s.Valid d decode encode := by
      intro s hs
      rcases List.mem_append.1 hs with hs | hs
      · exact hvalid s (List.mem_append_left segs hs)
      · exact hvalid s (List.mem_append_right pending (List.mem_of_mem_take hs))
    have hmemNow : ∀ b ∈ (pending ++ segs.take k).map (Segment.body encode), d ∉ b := by
      intro b hb
      obtain ⟨s, hs, rfl⟩ := List.mem_map.1 hb
      exact (hvalidNow s hs).not_mem
    have hbuf : stream d (pending.map (Segment.body encode)) ++ t ++ chunk =
        stream d ((pending ++ segs.take k).map (Segment.body encode)) ++ u := by
      rw [List.append_assoc, hx, List.map_append, stream_append, List.append_assoc]
    have hfeed := feed_stream decode hmemNow hu hbuf
    simp only [feeds, completions, List.map_cons, Clear, hk, List.cons.injEq]
    rw [hfeed]
    have hvalidLater : ∀ left : List (Segment τ α),
        (∀ s ∈ left, s ∈ pending ++ segs.take k) →
        ∀ s ∈ left ++ segs.drop k, s.Valid d decode encode := by
      intro left hleft s hs
      rcases List.mem_append.1 hs with hs | hs
      · exact hvalidNow s (hleft s hs)
      · exact hvalid s (List.mem_append_right pending (List.mem_of_mem_drop hs))
    have hsum : damage (pending ++ segs.take k) = damage pending + damage (segs.take k) :=
      damage_append _ _
    have hframes : frames (pending ++ segs.take k) = frames (segs.take k) := by
      rw [frames_append, hpend, List.nil_append]
    rcases serve_segments hvalidNow [] with ⟨hzero, hserve⟩ | ⟨e, before, left, hsplit, hd, hserve⟩
    · rw [hserve]
      have hnone : damage pending + damage (segs.take k) = 0 := by omega
      have hgo := ih [] (segs.drop k) u (hvalidLater [] fun s hs => (nomatch hs)) hu rfl hrest
      rw [List.map_nil] at hgo
      rw [hgo, hnone]
      simp [returned, hframes, damage]
    · rw [hserve]
      have hpos : damage left = damage pending + damage (segs.take k) - 1 := by omega
      have hgo := fun hleft => ih left (segs.drop k) u
        (hvalidLater left fun s hs => hsplit ▸ List.mem_append_right before hs) hu hleft hrest
      simp only [returned]
      constructor
      · rintro ⟨hnil, htail⟩
        have hleft : frames left = [] := by
          have hall := hframes.trans hnil.symm
          rw [hsplit, frames_append] at hall
          exact (List.append_eq_nil_iff.1 hall).2
        refine ⟨fun _ => hnil.symm, hpos ▸ (hgo hleft).1 htail⟩
      · rintro ⟨hclear, htail⟩
        have hnil := hclear (by omega)
        have hleft : frames left = [] := by
          have hall := hframes.trans hnil
          rw [hsplit, frames_append] at hall
          exact (List.append_eq_nil_iff.1 hall).2
        exact ⟨hnil.symm, (hgo hleft).2 (hpos ▸ htail)⟩

theorem clear_of_damage {chunks : List (List τ)} : ∀ {segs : List (Segment τ α)},
    damage segs = 0 → Clear 0 (completions d segs chunks) := by
  induction chunks with
  | nil => exact fun _ => trivial
  | cons chunk chunks ih =>
    intro segs h
    have hsplit := damage_append (segs.take (chunk.count d)) (segs.drop (chunk.count d))
    rw [List.take_append_drop, h] at hsplit
    have hnow : damage (segs.take (chunk.count d)) = 0 := by omega
    have hlater : damage (segs.drop (chunk.count d)) = 0 := by omega
    refine ⟨fun hpos => absurd hpos (by omega), ?_⟩
    rw [hnow]
    exact ih hlater

theorem flatten_completions (d : τ) (chunks : List (List τ)) : ∀ (segs : List (Segment τ α)),
    (completions d segs chunks).flatten = segs.take (chunks.flatten.count d) := by
  induction chunks with
  | nil => simp [completions]
  | cons chunk chunks ih =>
    intro segs
    rw [completions, List.flatten_cons, ih, List.flatten_cons, List.count_append, List.take_add]

theorem count_stream {bodies : List (List τ)} (hb : ∀ b ∈ bodies, d ∉ b) :
    (stream d bodies).count d = bodies.length := by
  induction bodies with
  | nil => simp
  | cons b bs ih =>
    have hbs := ih fun b' hb' => hb b' (List.mem_cons_of_mem b hb')
    simp [hbs, List.count_eq_zero_of_not_mem (hb b List.mem_cons_self)]

theorem frames_received {chunks : List (List τ)} {segs : List (Segment τ α)}
    (hvalid : ∀ s ∈ segs, s.Valid d decode encode) (hdamage : damage segs = 0)
    (hline : chunks.flatten = stream d (segs.map (Segment.body encode))) :
    ((feeds (feed d decode) [] chunks).map returned).flatten = frames segs := by
  have hall := (returned_iff_clear [] segs [] (by simpa using hvalid) (by simp) rfl
    (by simpa using hline)).2 (clear_of_damage hdamage)
  have hmem : ∀ b ∈ segs.map (Segment.body encode), d ∉ b := by
    intro b hb
    obtain ⟨s, hs, rfl⟩ := List.mem_map.1 hb
    exact (hvalid s hs).not_mem
  have hfeeds : feeds (feed d decode) [] chunks =
      feeds (feed d decode) (stream d (([] : List (Segment τ α)).map (Segment.body encode)) ++ [])
        chunks := rfl
  rw [hfeeds, hall]
  have hflat := flatten_completions d chunks segs
  rw [hline, count_stream hmem, List.length_map, List.take_length] at hflat
  have hframes : (completions d segs chunks).flatten.filterMap Segment.frame? = frames segs := by
    rw [hflat, frames]
  rw [← hframes, List.filterMap_flatten]
  rfl

end Segments

end Delimited
