import CaveHome.Automation.EventBus
import Mathlib.Data.Fintype.Basic

/-!
# The order in which listeners see changes

The callers hand out their events as numbered items, whose topic is the entity that changed.  Every
listener gets every change exactly once.  It gets those of one entity in the order of the commits
when none of them is fired while an earlier one is still to be handed to somebody; otherwise a
listener may see them the other way round.
-/

namespace CaveHome.Automation

variable {A τ : Type}

/-- The entity whose change an event reports. -/
def topic (e : Event A) : Option String :=
  match e.data with
  | .stateChanged data => some data.entityId
  | .stateReported _ => none

def toItem (bus : BusInner A) (e : Event A) : Item (Option String) Nat := ⟨topic e, bus.audience e⟩

/-- The event type says what the event carries. -/
def Proper (e : Event A) : Prop :=
  e.eventType = match e.data with
    | .stateChanged _ => EVENT_STATE_CHANGED
    | .stateReported _ => EVENT_STATE_REPORTED

theorem Proper.ne_matchAll {e : Event A} (h : Proper e) : e.eventType ≠ MATCH_ALL := by
  unfold Proper at h
  rw [h]
  split
  · decide
  · decide

theorem Effect.fires_cases {m m' : StateMachine A} {now : Int} {fires : List (Event A)}
    (h : Effect m now m' fires) : fires = [] ∨ ∃ e, fires = [e] ∧ Proper e := by
  cases h with
  | quiet reservations => exact .inl rfl
  | reported context hget => exact .inr ⟨_, rfl, rfl⟩
  | changed context hsplit hreported hupdated hchanged => exact .inr ⟨_, rfl, rfl⟩
  | removed context reservations hget => exact .inr ⟨_, rfl, rfl⟩

namespace Callers

/-- The callers hand out what the fanout hands out: a frame owes what is still owed of its event,
and nothing else is owed. -/
structure Sim (bus : BusInner A) (sys : Callers A τ) (f : Fanout (Option String) Nat) : Prop where
  items : f.items = sys.committed.map (toItem bus)
  received : ∀ r, f.received r = (sys.received r).map Prod.fst
  delivered : ∀ r, ∀ p ∈ sys.received r, sys.committed[p.1]? = some p.2
  event : ∀ t, ∀ fr ∈ sys.threads t, sys.committed[fr.number]? = some fr.event
  owed : ∀ t, ∀ fr ∈ sys.threads t, f.owed fr.number = fr.owes bus
  held : ∀ n, f.owed n ≠ [] → ∃ t, ∃ fr ∈ sys.threads t, fr.number = n
  started : ∀ t, ∀ fr ∈ sys.threads t, fr.firing ≠ .committed → fr.number ∈ f.started
  nodup : ∀ t, ((sys.threads t).map Frame.number).Nodup
  apart : ∀ t t', ∀ fr ∈ sys.threads t, ∀ fr' ∈ sys.threads t', fr.number = fr'.number → t = t'

/-- A change of the entity is fired only when all earlier ones have been handed to everybody. -/
def InTurn (bus : BusInner A) (id : String) (sys : Callers A τ) : Label A τ → Prop
  | .fire t => ∀ fr, (sys.threads t).head? = some fr → topic fr.event = some id →
      ∀ t', ∀ fr' ∈ sys.threads t', topic fr'.event = some id → fr'.number < fr.number →
        fr'.owes bus = []
  | _ => True

/-- With finitely many threads it can be decided. -/
instance [Fintype τ] (bus : BusInner A) (id : String) (sys : Callers A τ) (label : Label A τ) :
    Decidable (InTurn bus id sys label) :=
  match label with
  | .fire t =>
    match h : (sys.threads t).head? with
    | none => isTrue fun fr hfr => by simp [h] at hfr
    | some fr => decidable_of_iff (topic fr.event = some id →
        ∀ t', ∀ fr' ∈ sys.threads t', topic fr'.event = some id → fr'.number < fr.number →
          fr'.owes bus = [])
      ⟨fun hall fr' hfr' => Option.some.inj (h.symm.trans hfr') ▸ hall, fun hall => hall fr h⟩
  | .commit _ _ | .serve _ | .back _ | .finish _ => isTrue trivial

section Simulation

variable {bus : BusInner A} {sys sys' : Callers A τ} {f f' : Fanout (Option String) Nat} {t : τ}
  {fr : Frame A} {outer : List (Frame A)} {id : String} {n : Nat}

theorem sim_init : Sim bus (init : Callers A τ) Fanout.empty where
  items := rfl
  received := fun _ => rfl
  delivered := by simp [init]
  event := by simp [init]
  owed := by simp [init]
  held := by simp [Fanout.empty]
  started := by simp [init]
  nodup := by simp [init]
  apart := by simp [init]

theorem Sim.about_iff (h : Sim bus sys f) :
    f.About (some id) n ↔ ∃ e, sys.committed[n]? = some e ∧ topic e = some id := by
  rw [Fanout.About, h.items, List.getElem?_map, Option.map_map, Option.map_eq_some_iff]
  exact Iff.rfl

theorem Sim.audience_eq (h : Sim bus sys f) {e : Event A} (he : sys.committed[n]? = some e) :
    f.audience n = bus.audience e := by
  rw [Fanout.audience, h.items, List.getElem?_map, he]
  rfl

theorem Sim.number_lt (h : Sim bus sys f) {fr : Frame A} (hfr : fr ∈ sys.threads t) :
    fr.number < sys.committed.length := by
  have hevent := h.event t fr hfr
  exact (List.getElem?_eq_some_iff.mp hevent).1

variable [DecidableEq τ]

theorem Sim.mem_setTop (h : Sim bus sys f) (hstack : sys.threads t = fr :: outer)
    {top : Option (Frame A)} {t' : τ} {fr' : Frame A}
    (hmem : fr' ∈ (sys.setTop t top outer).threads t') :
    (top = some fr' ∧ t' = t) ∨ (fr' ∈ sys.threads t' ∧ fr'.number ≠ fr.number) := by
  have hfr : fr ∈ sys.threads t := by
    rw [hstack]
    exact List.mem_cons_self
  by_cases ht : t' = t
  · subst ht
    rw [threads_setTop_self] at hmem
    obtain htop | houter := List.mem_append.mp hmem
    · exact .inl ⟨Option.mem_toList.mp htop, rfl⟩
    · right
      constructor
      · rw [hstack]
        exact List.mem_cons_of_mem fr houter
      · intro heq
        have hnodup := h.nodup t'
        rw [hstack, List.map_cons, List.nodup_cons] at hnodup
        exact hnodup.1 (heq ▸ List.mem_map_of_mem houter)
  · rw [threads_setTop_of_ne ht] at hmem
    exact .inr ⟨hmem, fun heq => ht (h.apart t' t fr' hmem fr hfr heq)⟩

theorem Sim.setTop (h : Sim bus sys f) (hstack : sys.threads t = fr :: outer)
    {top : Option (Frame A)} (received' : Nat → List (Nat × Event A))
    (htop : ∀ fr', top = some fr' → fr'.number = fr.number ∧ fr'.event = fr.event ∧
      f'.owed fr.number = fr'.owes bus ∧ fr.number ∈ f'.started)
    (hnone : top = none → f'.owed fr.number = [])
    (hitems : f'.items = f.items) (howed : ∀ n, n ≠ fr.number → f'.owed n = f.owed n)
    (hstarted : f.started ⊆ f'.started)
    (hreceived : ∀ r, f'.received r = (received' r).map Prod.fst)
    (hdelivered : ∀ r, ∀ p ∈ received' r, sys.committed[p.1]? = some p.2) :
    Sim bus { sys.setTop t top outer with received := received' } f' := by
  have hfr : fr ∈ sys.threads t := by
    rw [hstack]
    exact List.mem_cons_self
  refine ⟨hitems.trans h.items, hreceived, hdelivered, ?_, ?_, ?_, ?_, ?_, ?_⟩
  · intro t' fr' hmem
    obtain ⟨heq, -⟩ | ⟨hold, -⟩ := h.mem_setTop hstack hmem
    · obtain ⟨hnumber, hevent, -⟩ := htop fr' heq
      rw [hnumber, hevent]
      exact h.event t fr hfr
    · exact h.event t' fr' hold
  · intro t' fr' hmem
    obtain ⟨heq, -⟩ | ⟨hold, hne⟩ := h.mem_setTop hstack hmem
    · obtain ⟨hnumber, -, hnew, -⟩ := htop fr' heq
      rw [hnumber]
      exact hnew
    · rw [howed _ hne]
      exact h.owed t' fr' hold
  · intro n hn
    by_cases heq : n = fr.number
    · cases top with
      | none => exact absurd (hnone rfl) (heq ▸ hn)
      | some fr' =>
        refine ⟨t, fr', ?_, (htop fr' rfl).1.trans heq.symm⟩
        show fr' ∈ (sys.setTop t (some fr') outer).threads t
        rw [threads_setTop_self]
        exact List.mem_cons_self
    · obtain ⟨t', fr', hmem, hnumber⟩ := h.held n (howed n heq ▸ hn)
      refine ⟨t', fr', ?_, hnumber⟩
      show fr' ∈ (sys.setTop t top outer).threads t'
      by_cases ht : t' = t
      · subst ht
        rw [threads_setTop_self]
        rw [hstack] at hmem
        obtain rfl | houter := List.mem_cons.mp hmem
        · exact absurd hnumber.symm heq
        · exact List.mem_append_right _ houter
      · rw [threads_setTop_of_ne ht]
        exact hmem
  · intro t' fr' hmem hfiring
    obtain ⟨heq, -⟩ | ⟨hold, -⟩ := h.mem_setTop hstack hmem
    · obtain ⟨hnumber, -, -, hin⟩ := htop fr' heq
      rw [hnumber]
      exact hin
    · exact hstarted (h.started t' fr' hold hfiring)
  · intro t'
    show (((sys.setTop t top outer).threads t').map Frame.number).Nodup
    by_cases ht : t' = t
    · subst ht
      have hnodup := h.nodup t'
      rw [hstack, List.map_cons] at hnodup
      rw [threads_setTop_self]
      cases top with
      | none => exact (List.nodup_cons.mp hnodup).2
      | some fr' =>
        show (fr'.number :: outer.map Frame.number).Nodup
        rw [(htop fr' rfl).1]
        exact hnodup
    · rw [threads_setTop_of_ne ht]
      exact h.nodup t'
  · intro t₁ t₂ fr₁ hmem₁ fr₂ hmem₂ hnumber
    obtain ⟨heq₁, ht₁⟩ | ⟨hold₁, hne₁⟩ := h.mem_setTop hstack hmem₁
    · obtain ⟨heq₂, ht₂⟩ | ⟨hold₂, hne₂⟩ := h.mem_setTop hstack hmem₂
      · exact ht₁.trans ht₂.symm
      · exact absurd (hnumber.symm.trans (htop fr₁ heq₁).1) hne₂
    · obtain ⟨heq₂, ht₂⟩ | ⟨hold₂, hne₂⟩ := h.mem_setTop hstack hmem₂
      · exact absurd (hnumber.trans (htop fr₂ heq₂).1) hne₁
      · exact h.apart t₁ t₂ fr₁ hold₁ fr₂ hold₂ hnumber

theorem Sim.commit (h : Sim bus sys f) (t : τ) (e : Event A) (m : StateMachine A) :
    Sim bus { sys with
      machine := m
      threads := Function.update sys.threads t
        (⟨sys.committed.length, e, .committed⟩ :: sys.threads t)
      committed := sys.committed ++ [e] } (f.publish (toItem bus e)) := by
  have hlength : f.items.length = sys.committed.length := by rw [h.items, List.length_map]
  have hmem : ∀ t' fr', fr' ∈ Function.update sys.threads t
      (⟨sys.committed.length, e, .committed⟩ :: sys.threads t) t' →
      (fr' = ⟨sys.committed.length, e, .committed⟩ ∧ t' = t) ∨
        (fr' ∈ sys.threads t' ∧ fr'.number < sys.committed.length) := by
    intro t' fr' hfr'
    by_cases ht : t' = t
    · subst ht
      rw [Function.update_self] at hfr'
      obtain rfl | hold := List.mem_cons.mp hfr'
      · exact .inl ⟨rfl, rfl⟩
      · exact .inr ⟨hold, h.number_lt hold⟩
    · rw [Function.update_of_ne ht] at hfr'
      exact .inr ⟨hfr', h.number_lt hfr'⟩
  have hnew : (f.publish (toItem bus e)).owed sys.committed.length = bus.audience e := by
    rw [← hlength]
    exact Function.update_self _ _ _
  have hold : ∀ n, n ≠ sys.committed.length → (f.publish (toItem bus e)).owed n = f.owed n := by
    intro n hn
    rw [← hlength] at hn
    exact Function.update_of_ne hn _ _
  refine ⟨?_, h.received, ?_, ?_, ?_, ?_, ?_, ?_, ?_⟩
  · show f.items ++ [toItem bus e] = _
    rw [h.items, List.map_append]
    rfl
  · intro r p hp
    have hevent := h.delivered r p hp
    rwa [List.getElem?_append_left (List.getElem?_eq_some_iff.mp hevent).1]
  · intro t' fr' hfr'
    obtain ⟨rfl, -⟩ | ⟨hin, hlt⟩ := hmem t' fr' hfr'
    · exact List.getElem?_concat_length
    · show (sys.committed ++ [e])[fr'.number]? = _
      rw [List.getElem?_append_left hlt]
      exact h.event t' fr' hin
  · intro t' fr' hfr'
    obtain ⟨rfl, -⟩ | ⟨hin, hlt⟩ := hmem t' fr' hfr'
    · exact hnew
    · rw [hold _ hlt.ne]
      exact h.owed t' fr' hin
  · intro n hn
    by_cases heq : n = sys.committed.length
    · refine ⟨t, ⟨sys.committed.length, e, .committed⟩, ?_, heq.symm⟩
      show _ ∈ Function.update sys.threads t _ t
      rw [Function.update_self]
      exact List.mem_cons_self
    · obtain ⟨t', fr', hin, hnumber⟩ := h.held n (hold n heq ▸ hn)
      refine ⟨t', fr', ?_, hnumber⟩
      show fr' ∈ Function.update sys.threads t _ t'
      by_cases ht : t' = t
      · subst ht
        rw [Function.update_self]
        exact List.mem_cons_of_mem _ hin
      · rwa [Function.update_of_ne ht]
  · intro t' fr' hfr' hfiring
    obtain ⟨rfl, -⟩ | ⟨hin, -⟩ := hmem t' fr' hfr'
    · exact absurd rfl hfiring
    · exact h.started t' fr' hin hfiring
  · intro t'
    show ((Function.update sys.threads t _ t').map Frame.number).Nodup
    by_cases ht : t' = t
    · subst ht
      rw [Function.update_self, List.map_cons, List.nodup_cons]
      refine ⟨?_, h.nodup t'⟩
      intro hin
      obtain ⟨fr', hfr', hnumber⟩ := List.mem_map.mp hin
      exact (h.number_lt hfr').ne hnumber
    · rw [Function.update_of_ne ht]
      exact h.nodup t'
  · intro t₁ t₂ fr₁ hfr₁ fr₂ hfr₂ hnumber
    obtain ⟨rfl, ht₁⟩ | ⟨hin₁, hlt₁⟩ := hmem t₁ fr₁ hfr₁
    · obtain ⟨rfl, ht₂⟩ | ⟨hin₂, hlt₂⟩ := hmem t₂ fr₂ hfr₂
      · exact ht₁.trans ht₂.symm
      · exact absurd hnumber.symm hlt₂.ne
    · obtain ⟨rfl, ht₂⟩ | ⟨hin₂, hlt₂⟩ := hmem t₂ fr₂ hfr₂
      · exact absurd hnumber hlt₁.ne
      · exact h.apart t₁ t₂ fr₁ hin₁ fr₂ hin₂ hnumber

omit [DecidableEq τ] in
theorem Sim.earlier_done (h : Sim bus sys f) (hturn : InTurn bus id sys (.fire t))
    (hstack : sys.threads t = fr :: outer) (hn : f.About (some id) fr.number) :
    ∀ m < fr.number, f.About (some id) m → f.owed m = [] := by
  intro m hm habout
  have hfr : fr ∈ sys.threads t := by
    rw [hstack]
    exact List.mem_cons_self
  have htopic : ∀ t' fr', fr' ∈ sys.threads t' → f.About (some id) fr'.number →
      topic fr'.event = some id := by
    intro t' fr' hfr' habout'
    obtain ⟨e, hevent, htopic⟩ := h.about_iff.mp habout'
    rw [h.event t' fr' hfr'] at hevent
    exact Option.some.inj hevent ▸ htopic
  by_contra howed
  obtain ⟨t', fr', hfr', rfl⟩ := h.held m howed
  rw [h.owed t' fr' hfr'] at howed
  have hhead : (sys.threads t).head? = some fr := by
    rw [hstack]
    rfl
  exact howed (hturn fr hhead (htopic t fr hfr hn) t' fr' hfr' (htopic t' fr' hfr' habout) hm)

theorem Sim.step [BEq A] (hbus : bus.WellFormed) (h : Sim bus sys f) (he : f.Exact)
    {label : Label A τ} (hstep : step bus sys label = some sys') :
    ∃ f', Sim bus sys' f' ∧ f'.Exact ∧
      ∀ id, f.Ordered (some id) → InTurn bus id sys label → f'.Ordered (some id) := by
  cases label with
  | commit t c =>
    obtain rfl := step_commit hstep
    obtain hfires | ⟨e, hfires, hproper⟩ := (perform_effect sys.machine c).fires_cases
    · refine ⟨f, ?_, he, fun id ho _ => ho⟩
      rw [hfires]
      have hsame : Function.update sys.threads t ([] ++ sys.threads t) = sys.threads :=
        Function.update_eq_self t sys.threads
      rw [List.mapIdx_nil, hsame, List.append_nil]
      exact ⟨h.items, h.received, h.delivered, h.event, h.owed, h.held, h.started, h.nodup,
        h.apart⟩
    · refine ⟨f.publish (toItem bus e), ?_, he.publish (hbus.nodup_audience hproper.ne_matchAll),
        fun id ho _ => ho.publish he⟩
      rw [hfires]
      exact h.commit t e _
  | fire t =>
    obtain ⟨n, e, outer, hstack, rfl⟩ := step_fire hstep
    have hfr : (⟨n, e, .committed⟩ : Frame A) ∈ sys.threads t := by
      rw [hstack]
      exact List.mem_cons_self
    have hlt : n < f.items.length := by
      rw [h.items, List.length_map]
      exact h.number_lt hfr
    refine ⟨f.start n, ?_, he.start hlt, fun id ho hturn => ho.start (h.earlier_done hturn hstack)⟩
    refine h.setTop hstack sys.received ?_ (fun hnone => by cases hnone) rfl
      (fun _ _ => rfl) (Set.subset_insert _ _) h.received h.delivered
    intro fr' hfr'
    cases hfr'
    exact ⟨rfl, rfl, h.owed t _ hfr, Set.mem_insert _ _⟩
  | serve t =>
    obtain ⟨n, e, l, ls, outer, hstack, hcases⟩ := step_serve hstep
    have hfr : (⟨n, e, .serving (l :: ls) false⟩ : Frame A) ∈ sys.threads t := by
      rw [hstack]
      exact List.mem_cons_self
    have hin : n ∈ f.started := h.started t _ hfr (by simp)
    obtain ⟨haccepts, rfl⟩ | ⟨haccepts, rfl⟩ := hcases
    · have howed : f.owed n = l.id :: (ls.filter fun l => l.accepts e).map Listener.id := by
        rw [h.owed t _ hfr, Frame.owes]
        simp [haccepts]
      refine ⟨f.hand n l.id _, ?_, he.hand howed, fun id ho _ => ho.hand he hin howed⟩
      refine h.setTop hstack _ ?_ (fun hnone => by cases hnone) rfl
        (fun m hm => Function.update_of_ne hm _ _) le_rfl ?_ ?_
      · intro fr' hfr'
        cases hfr'
        exact ⟨rfl, rfl, Function.update_self _ _ _, hin⟩
      · intro r
        show Function.update f.received l.id (f.received l.id ++ [n]) r = _
        by_cases hr : r = l.id
        · subst hr
          rw [Function.update_self, Function.update_self, h.received, List.map_append]
          rfl
        · rw [Function.update_of_ne hr, Function.update_of_ne hr, h.received]
      · intro r p hp
        by_cases hr : r = l.id
        · subst hr
          rw [Function.update_self] at hp
          obtain hold | hnew := List.mem_append.mp hp
          · exact h.delivered _ p hold
          · rw [List.mem_singleton.mp hnew]
            exact h.event t _ hfr
        · rw [Function.update_of_ne hr] at hp
          exact h.delivered r p hp
    · refine ⟨f, ?_, he, fun id ho _ => ho⟩
      refine h.setTop hstack sys.received ?_ (fun hnone => by cases hnone) rfl
        (fun _ _ => rfl) le_rfl h.received h.delivered
      intro fr' hfr'
      cases hfr'
      refine ⟨rfl, rfl, ?_, hin⟩
      rw [h.owed t _ hfr, Frame.owes, Frame.owes]
      simp [haccepts]
  | back t =>
    obtain ⟨n, e, ls, outer, hstack, rfl⟩ := step_back hstep
    have hfr : (⟨n, e, .serving ls true⟩ : Frame A) ∈ sys.threads t := by
      rw [hstack]
      exact List.mem_cons_self
    refine ⟨f, ?_, he, fun id ho _ => ho⟩
    refine h.setTop hstack sys.received ?_ (fun hnone => by cases hnone) rfl
      (fun _ _ => rfl) le_rfl h.received h.delivered
    intro fr' hfr'
    cases hfr'
    exact ⟨rfl, rfl, h.owed t _ hfr, h.started t _ hfr (by simp)⟩
  | finish t =>
    obtain ⟨n, e, outer, hstack, rfl⟩ := step_finish hstep
    have hfr : (⟨n, e, .serving [] false⟩ : Frame A) ∈ sys.threads t := by
      rw [hstack]
      exact List.mem_cons_self
    refine ⟨f, ?_, he, fun id ho _ => ho⟩
    exact h.setTop hstack sys.received (fun fr' hfr' => by cases hfr')
      (fun _ => h.owed t _ hfr) rfl (fun _ _ => rfl) le_rfl h.received h.delivered

end Simulation

end Callers

end CaveHome.Automation
