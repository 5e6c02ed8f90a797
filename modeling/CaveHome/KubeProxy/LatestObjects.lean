import CaveHome.KubeProxy.RulesBuilder
import CaveHome.Lib.NestedMap
import CaveHome.Lib.Runs
import Mathlib.Data.List.Destutter
import Mathlib.Data.List.Induction

/-!
# The caches of the proxy

Watch events go into two caches; a sync clears their dirty flags and builds the rules from their
snapshots.  The slices are kept by the service that their label names.
-/

namespace CaveHome.KubeProxy

/-! ## Services -/

structure ServiceCache where
  services : BTreeMap NamespacedName Service
  dirty : Bool

namespace ServiceCache

def new : ServiceCache := ⟨[], false⟩

def modify (c : ServiceCache) (s : Service) : ServiceCache := ⟨c.services.insert s.metadata s, true⟩

def add (c : ServiceCache) (s : Service) : ServiceCache := c.modify s

def delete (c : ServiceCache) (s : Service) : ServiceCache :=
  ⟨c.services.remove s.metadata, c.dirty || (c.services.get s.metadata).isSome⟩

def takeDirty (c : ServiceCache) : ServiceCache := { c with dirty := false }

def portInfo (s : Service) (p : ServicePort) : ServicePortInfo :=
  ⟨⟨s.metadata, p.name, p.protocol⟩, s.clusterIp, p.port, p.protocol⟩

def snapshot (c : ServiceCache) : List ServicePortInfo :=
  (c.services.flatMap fun e => if e.2.shouldSkip then [] else e.2.ports.map (portInfo e.2)).insertionSort
    fun a b => a.name ≤ b.name

end ServiceCache

/-! ## Endpoint slices -/

/-- `byService` maps the service, then the name of the slice. -/
structure EndpointSliceCache where
  byService : NestedMap NamespacedName String EndpointSlice
  dirty : Bool

namespace EndpointSliceCache

def new : EndpointSliceCache := ⟨[], false⟩

def modify (c : EndpointSliceCache) (s : EndpointSlice) : EndpointSliceCache :=
  ⟨c.byService.insert s.serviceNamespacedName s.metadata.name s, true⟩

def add (c : EndpointSliceCache) (s : EndpointSlice) : EndpointSliceCache := c.modify s

def delete (c : EndpointSliceCache) (s : EndpointSlice) : EndpointSliceCache :=
  ⟨c.byService.remove s.serviceNamespacedName s.metadata.name,
    c.dirty || (c.byService.get s.serviceNamespacedName s.metadata.name).isSome⟩

def takeDirty (c : EndpointSliceCache) : EndpointSliceCache := { c with dirty := false }

/-- The addresses of the ready endpoints, with the port. -/
def ready (s : EndpointSlice) (port : Int) : List EndpointInfo :=
  s.endpoints.flatMap fun e => if e.isReady then e.addresses.map fun ip => ⟨ip, port⟩ else []

/-- What the three loops visit: the service port and the endpoints of each port of each slice. -/
def rows (c : EndpointSliceCache) : List (ServicePortName × List EndpointInfo) :=
  c.byService.flatMap fun svc => svc.2.flatMap fun s => s.2.ports.map fun port =>
    (⟨svc.1, port.name, port.protocol⟩, ready s.2 port.port)

def push (out : BTreeMap ServicePortName (List EndpointInfo))
    (row : ServicePortName × List EndpointInfo) : BTreeMap ServicePortName (List EndpointInfo) :=
  out.insert row.1 ((out.get row.1).getD [] ++ row.2)

/-- `sort` and then `dedup`, which drops an element that equals the one before. -/
def sortDedup (bucket : List EndpointInfo) : List EndpointInfo :=
  (bucket.insertionSort (· ≤ ·)).destutter (· ≠ ·)

def snapshot (c : EndpointSliceCache) : BTreeMap ServicePortName (List EndpointInfo) :=
  (c.rows.foldl push []).map fun e => (e.1, sortDedup e.2)

end EndpointSliceCache

/-! ## The proxier -/

structure Proxier where
  clusterCidr : Option String
  services : ServiceCache
  endpoints : EndpointSliceCache

namespace Proxier

def new (clusterCidr : Option String) : Proxier := ⟨clusterCidr, .new, .new⟩

def applyEvent (p : Proxier) : WatchEvent → Proxier
  | .serviceAdded s => { p with services := p.services.add s }
  | .serviceModified s => { p with services := p.services.modify s }
  | .serviceDeleted s => { p with services := p.services.delete s }
  | .endpointSliceAdded s => { p with endpoints := p.endpoints.add s }
  | .endpointSliceModified s => { p with endpoints := p.endpoints.modify s }
  | .endpointSliceDeleted s => { p with endpoints := p.endpoints.delete s }

def input (p : Proxier) : BuildInput :=
  ⟨p.services.snapshot, p.endpoints.snapshot, p.clusterCidr⟩

/-- The flags are cleared before the snapshots are taken. -/
def syncOnce (p : Proxier) : Proxier × BuildInput :=
  let p := { p with services := p.services.takeDirty, endpoints := p.endpoints.takeDirty }
  (p, p.input)

end Proxier

end CaveHome.KubeProxy

/-!
## The caches and the latest objects

The objects that exist, each in its latest version, against what the caches hold.  The service cache
always agrees with them; the slice cache does as long as a slice keeps the label that it was stored
with.
-/

namespace CaveHome.KubeProxy

/-! ## The latest objects -/

/-- A map in order, in which every object stands under its own name. -/
structure ByName {ω : Type} (name : ω → NamespacedName) (m : BTreeMap NamespacedName ω) : Prop where
  sorted : m.Sorted
  name_eq : ∀ k o, m.get k = some o → name o = k

section

variable {ω : Type} {name : ω → NamespacedName} {m : BTreeMap NamespacedName ω}

theorem byName_nil : ByName name [] := ⟨BTreeMap.sorted_nil, by simp⟩

theorem ByName.insert (h : ByName name m) (o : ω) : ByName name (m.insert (name o) o) := by
  refine ⟨h.sorted.insert _ _, fun k o' hget => ?_⟩
  rw [BTreeMap.get_insert] at hget
  split at hget
  · rename_i heq
    rw [← Option.some.inj hget, heq]
  · exact h.name_eq k o' hget

theorem ByName.remove (h : ByName name m) (k : NamespacedName) : ByName name (m.remove k) := by
  refine ⟨h.sorted.remove _, fun k' o hget => ?_⟩
  rw [BTreeMap.get_remove] at hget
  split at hget
  · cases hget
  · exact h.name_eq k' o hget

theorem ByName.name_eq_of_mem (h : ByName name m) {e : NamespacedName × ω} (he : e ∈ m) :
    name e.2 = e.1 := h.name_eq e.1 e.2 (h.sorted.mem_iff.1 he)

theorem ByName.of_append {e : NamespacedName × ω} (h : ByName name (m ++ [e])) :
    ByName name m ∧ BTreeMap.get (name e.2) m = none ∧
      BTreeMap.insert (name e.2) e.2 m = m ++ [e] := by
  have hsorted : m.Sorted := List.Pairwise.sublist (List.sublist_append_left _ _) h.sorted
  have hname : name e.2 = e.1 :=
    h.name_eq_of_mem (List.mem_append_right _ List.mem_cons_self)
  refine ⟨⟨hsorted, fun k o hget => ?_⟩, ?_, ?_⟩
  · exact h.name_eq_of_mem (e := (k, o)) (List.mem_append_left _ (hsorted.mem_iff.2 hget))
  · rw [BTreeMap.get_eq_none_iff, hname]
    intro e' he'
    exact ((List.pairwise_append.1 h.sorted).2.2 e' he' e List.mem_cons_self).ne
  · rw [hname]
    exact BTreeMap.Sorted.insert_last h.sorted

end

structure Objects where
  services : BTreeMap NamespacedName Service
  slices : BTreeMap NamespacedName EndpointSlice

namespace Objects

def empty : Objects := ⟨[], []⟩

def apply (o : Objects) : WatchEvent → Objects
  | .serviceAdded s => { o with services := o.services.insert s.metadata s }
  | .serviceModified s => { o with services := o.services.insert s.metadata s }
  | .serviceDeleted s => { o with services := o.services.remove s.metadata }
  | .endpointSliceAdded s => { o with slices := o.slices.insert s.metadata s }
  | .endpointSliceModified s => { o with slices := o.slices.insert s.metadata s }
  | .endpointSliceDeleted s => { o with slices := o.slices.remove s.metadata }

end Objects

/-- Caches that have seen nothing but the latest versions. -/
def freshSlices (slices : BTreeMap NamespacedName EndpointSlice) : EndpointSliceCache :=
  (slices.map (·.2)).foldl EndpointSliceCache.add .new

def freshServices (services : BTreeMap NamespacedName Service) : ServiceCache :=
  (services.map (·.2)).foldl ServiceCache.add .new

def latestInput (clusterCidr : Option String) (o : Objects) : BuildInput :=
  ⟨(freshServices o.services).snapshot, (freshSlices o.slices).snapshot, clusterCidr⟩

/-! ## What the slice cache holds -/

namespace EndpointSliceCache

/-- The cache holds the given slices, each under the service of its label. -/
structure Tracks (c : EndpointSliceCache) (slices : BTreeMap NamespacedName EndpointSlice) :
    Prop where
  wellFormed : c.byService.WellFormed
  get : ∀ nn name, c.byService.get nn name =
    (slices.get ⟨nn.namespaceName, name⟩).filter fun s => s.serviceNamespacedName = nn

theorem Tracks.byService_eq {c c' : EndpointSliceCache}
    {slices : BTreeMap NamespacedName EndpointSlice} (h : c.Tracks slices) (h' : c'.Tracks slices) :
    c.byService = c'.byService := by
  apply h.wellFormed.ext h'.wellFormed
  intro nn name
  rw [h.get, h'.get]

theorem new_tracks : new.Tracks [] := ⟨NestedMap.wellFormed_nil, fun _ _ => rfl⟩

theorem Tracks.modify {c : EndpointSliceCache} {slices : BTreeMap NamespacedName EndpointSlice}
    (h : c.Tracks slices) (hnames : ByName EndpointSlice.metadata slices)
    {s : EndpointSlice}
    (hlabel : ∀ old, slices.get s.metadata = some old → old.serviceName = s.serviceName) :
    (c.modify s).Tracks (slices.insert s.metadata s) := by
  refine ⟨h.wellFormed.insert _ _ _, fun nn name => ?_⟩
  rw [EndpointSliceCache.modify, NestedMap.get_insert, BTreeMap.get_insert, h.get]
  by_cases hobject : (⟨nn.namespaceName, name⟩ : NamespacedName) = s.metadata
  · rw [if_pos hobject, hobject]
    have hname : name = s.metadata.name := by rw [← hobject]
    by_cases hnn : nn = s.serviceNamespacedName
    · rw [if_pos ⟨hnn, hname⟩]
      simp [Option.filter, hnn]
    · rw [if_neg fun h => hnn h.1]
      cases hold : slices.get s.metadata with
      | none => simp [Option.filter, Ne.symm hnn]
      | some old =>
        have hsame : old.serviceNamespacedName = s.serviceNamespacedName := by
          rw [EndpointSlice.serviceNamespacedName, hnames.name_eq _ _ hold, hlabel old hold]
          rfl
        simp [Option.filter, hsame, Ne.symm hnn]
  · rw [if_neg hobject, if_neg]
    rintro ⟨rfl, rfl⟩
    exact hobject rfl

theorem Tracks.delete {c : EndpointSliceCache} {slices : BTreeMap NamespacedName EndpointSlice}
    (h : c.Tracks slices) (hnames : ByName EndpointSlice.metadata slices)
    {s : EndpointSlice}
    (hlabel : ∀ old, slices.get s.metadata = some old → old.serviceName = s.serviceName) :
    (c.delete s).Tracks (slices.remove s.metadata) := by
  refine ⟨h.wellFormed.remove _ _, fun nn name => ?_⟩
  rw [EndpointSliceCache.delete, NestedMap.get_remove, BTreeMap.get_remove, h.get]
  by_cases hobject : (⟨nn.namespaceName, name⟩ : NamespacedName) = s.metadata
  · rw [if_pos hobject, hobject, Option.filter_none]
    have hname : name = s.metadata.name := by rw [← hobject]
    split
    · rfl
    · rename_i hne
      cases hold : slices.get s.metadata with
      | none => rfl
      | some old =>
        have hsame : old.serviceNamespacedName = s.serviceNamespacedName := by
          rw [EndpointSlice.serviceNamespacedName, hnames.name_eq _ _ hold, hlabel old hold]
          rfl
        have hnn : s.serviceNamespacedName ≠ nn := fun heq => hne ⟨heq.symm, hname⟩
        simp [Option.filter, hsame, hnn]
  · rw [if_neg hobject, if_neg]
    rintro ⟨rfl, rfl⟩
    exact hobject rfl

theorem freshSlices_tracks {slices : BTreeMap NamespacedName EndpointSlice}
    (h : ByName EndpointSlice.metadata slices) : (freshSlices slices).Tracks slices := by
  induction slices using List.reverseRecOn with
  | nil => exact new_tracks
  | append_singleton slices e ih =>
    obtain ⟨hprior, habsent, hlast⟩ := h.of_append
    have hstep := (ih hprior).modify hprior (s := e.2) fun old hold => by
      rw [habsent] at hold
      cases hold
    rw [hlast] at hstep
    rw [freshSlices, List.map_append, List.foldl_append]
    exact hstep

theorem snapshot_congr {c c' : EndpointSliceCache} (h : c.byService = c'.byService) :
    c.snapshot = c'.snapshot := by
  rw [snapshot, snapshot, rows, rows, h]

end EndpointSliceCache

theorem freshServices_services {services : BTreeMap NamespacedName Service}
    (h : ByName Service.metadata services) : (freshServices services).services = services := by
  induction services using List.reverseRecOn with
  | nil => rfl
  | append_singleton services e ih =>
    obtain ⟨hprior, -, hlast⟩ := h.of_append
    have hstep := ih hprior
    rw [freshServices] at hstep
    rw [freshServices, List.map_append, List.foldl_append, List.map_cons, List.map_nil,
      List.foldl_cons, List.foldl_nil, ServiceCache.add, ServiceCache.modify, hstep]
    exact hlast

/-! ## Runs -/

/-- The proxier with the objects that exist and the input of the last sync. -/
structure Watched where
  proxier : Proxier
  objects : Objects
  synced : BuildInput

inductive Step
  | event (e : WatchEvent)
  | sync

/-- The slice that a step is about. -/
def Step.slice? : Step → Option EndpointSlice
  | .event (.endpointSliceAdded s) => some s
  | .event (.endpointSliceModified s) => some s
  | .event (.endpointSliceDeleted s) => some s
  | _ => none

namespace Watched

def start (clusterCidr : Option String) : Watched :=
  ⟨.new clusterCidr, .empty, (Proxier.new clusterCidr).input⟩

def step (w : Watched) : Step → Option Watched
  | .event e => some { w with proxier := w.proxier.applyEvent e, objects := w.objects.apply e }
  | .sync => some { w with proxier := w.proxier.syncOnce.1, synced := w.proxier.syncOnce.2 }

/-- What holds in every run. -/
structure Sound (w : Watched) : Prop where
  services_byName : ByName Service.metadata w.objects.services
  slices_byName : ByName EndpointSlice.metadata w.objects.slices
  services : w.proxier.services.services = w.objects.services
  slices_wellFormed : w.proxier.endpoints.byService.WellFormed
  latest : ∀ k s, w.objects.slices.get k = some s →
    w.proxier.endpoints.byService.get s.serviceNamespacedName k.name = some s
  clean : w.proxier.services.dirty = false → w.proxier.endpoints.dirty = false →
    w.proxier.input = w.synced

theorem start_sound (clusterCidr : Option String) : (start clusterCidr).Sound where
  services_byName := byName_nil
  slices_byName := byName_nil
  services := rfl
  slices_wellFormed := NestedMap.wellFormed_nil
  latest := by simp [start, Objects.empty]
  clean := fun _ _ => rfl

theorem Sound.sync {w : Watched} (h : w.Sound) :
    Sound { w with proxier := w.proxier.syncOnce.1, synced := w.proxier.syncOnce.2 } where
  services_byName := h.services_byName
  slices_byName := h.slices_byName
  services := h.services
  slices_wellFormed := h.slices_wellFormed
  latest := h.latest
  clean := fun _ _ => rfl

theorem Sound.modifyService {w : Watched} (h : w.Sound) (s : Service) :
    Sound { w with
      proxier := { w.proxier with services := w.proxier.services.modify s }
      objects := { w.objects with services := w.objects.services.insert s.metadata s } } where
  services_byName := h.services_byName.insert s
  slices_byName := h.slices_byName
  services := by
    simp only [ServiceCache.modify, h.services]
  slices_wellFormed := h.slices_wellFormed
  latest := h.latest
  clean := fun hdirty => by cases hdirty

theorem Sound.deleteService {w : Watched} (h : w.Sound) (s : Service) :
    Sound { w with
      proxier := { w.proxier with services := w.proxier.services.delete s }
      objects := { w.objects with services := w.objects.services.remove s.metadata } } where
  services_byName := h.services_byName.remove _
  slices_byName := h.slices_byName
  services := by
    simp only [ServiceCache.delete, h.services]
  slices_wellFormed := h.slices_wellFormed
  latest := h.latest
  clean := by
    intro hdirty hdirty'
    simp only [ServiceCache.delete, Bool.or_eq_false_iff, Option.isSome_eq_false_iff,
      Option.isNone_iff_eq_none] at hdirty
    have hsame : w.proxier.services.delete s = w.proxier.services := by
      simp only [ServiceCache.delete, BTreeMap.remove_eq_self hdirty.2, hdirty.2, Option.isSome_none,
        Bool.or_false]
    rw [hsame]
    exact h.clean hdirty.1 hdirty'

theorem Sound.key_eq {w : Watched} (h : w.Sound) {k : NamespacedName} {s s' : EndpointSlice}
    (hget : w.objects.slices.get k = some s')
    (hservice : s'.serviceNamespacedName = s.serviceNamespacedName)
    (hname : k.name = s.metadata.name) : k = s.metadata := by
  have hmetadata := h.slices_byName.name_eq k s' hget
  have hnamespace := congrArg NamespacedName.namespaceName hservice
  simp only [EndpointSlice.serviceNamespacedName, hmetadata] at hnamespace
  cases k
  cases hs : s.metadata
  rw [hs] at hnamespace hname
  rw [NamespacedName.mk.injEq]
  exact ⟨hnamespace, hname⟩

theorem Sound.modifySlice {w : Watched} (h : w.Sound) (s : EndpointSlice) :
    Sound { w with
      proxier := { w.proxier with endpoints := w.proxier.endpoints.modify s }
      objects := { w.objects with slices := w.objects.slices.insert s.metadata s } } where
  services_byName := h.services_byName
  slices_byName := h.slices_byName.insert s
  services := h.services
  slices_wellFormed := h.slices_wellFormed.insert _ _ _
  latest := by
    intro k s' hget
    simp only [BTreeMap.get_insert] at hget
    simp only [EndpointSliceCache.modify, NestedMap.get_insert]
    split at hget
    · rename_i heq
      cases hget
      rw [heq, if_pos ⟨rfl, rfl⟩]
    · rename_i hne
      rw [if_neg, h.latest k s' hget]
      rintro ⟨hservice, hname⟩
      exact hne (h.key_eq hget hservice hname)
  clean := fun _ hdirty => by cases hdirty

theorem Sound.deleteSlice {w : Watched} (h : w.Sound) (s : EndpointSlice) :
    Sound { w with
      proxier := { w.proxier with endpoints := w.proxier.endpoints.delete s }
      objects := { w.objects with slices := w.objects.slices.remove s.metadata } } where
  services_byName := h.services_byName
  slices_byName := h.slices_byName.remove _
  services := h.services
  slices_wellFormed := h.slices_wellFormed.remove _ _
  latest := by
    intro k s' hget
    simp only [BTreeMap.get_remove] at hget
    simp only [EndpointSliceCache.delete, NestedMap.get_remove]
    split at hget
    · cases hget
    · rename_i hne
      rw [if_neg, h.latest k s' hget]
      rintro ⟨hservice, hname⟩
      exact hne (h.key_eq hget hservice hname)
  clean := by
    intro hdirty hdirty'
    simp only [EndpointSliceCache.delete, Bool.or_eq_false_iff, Option.isSome_eq_false_iff,
      Option.isNone_iff_eq_none] at hdirty'
    have hsame : w.proxier.endpoints.delete s = w.proxier.endpoints := by
      simp only [EndpointSliceCache.delete, h.slices_wellFormed.remove_eq_self hdirty'.2, hdirty'.2,
        Option.isSome_none, Bool.or_false]
    rw [hsame]
    exact h.clean hdirty hdirty'.1

theorem Sound.step {w w' : Watched} {a : Step} (h : w.Sound) (hstep : w.step a = some w') :
    w'.Sound := by
  cases a with
  | sync => exact Option.some.inj hstep ▸ h.sync
  | event e =>
    obtain rfl := Option.some.inj hstep
    cases e with
    | serviceAdded s => exact h.modifyService s
    | serviceModified s => exact h.modifyService s
    | serviceDeleted s => exact h.deleteService s
    | endpointSliceAdded s => exact h.modifySlice s
    | endpointSliceModified s => exact h.modifySlice s
    | endpointSliceDeleted s => exact h.deleteSlice s

/-- An event of a slice that exists comes with the label of its latest version. -/
def KeepsLabel (w : Watched) (a : Step) : Prop :=
  ∀ s, a.slice? = some s → ∀ old, w.objects.slices.get s.metadata = some old →
    old.serviceName = s.serviceName

theorem Sound.tracks_step {w w' : Watched} {a : Step} (h : w.Sound) (hlabel : w.KeepsLabel a)
    (htracks : w.proxier.endpoints.Tracks w.objects.slices) (hstep : w.step a = some w') :
    w'.proxier.endpoints.Tracks w'.objects.slices := by
  cases a with
  | sync =>
    obtain rfl := Option.some.inj hstep
    exact ⟨htracks.wellFormed, htracks.get⟩
  | event e =>
    obtain rfl := Option.some.inj hstep
    cases e with
    | serviceAdded s => exact htracks
    | serviceModified s => exact htracks
    | serviceDeleted s => exact htracks
    | endpointSliceAdded s => exact htracks.modify h.slices_byName (hlabel s rfl)
    | endpointSliceModified s => exact htracks.modify h.slices_byName (hlabel s rfl)
    | endpointSliceDeleted s => exact htracks.delete h.slices_byName (hlabel s rfl)

theorem clusterCidr_step {w w' : Watched} {a : Step} (hstep : w.step a = some w') :
    w'.proxier.clusterCidr = w.proxier.clusterCidr := by
  cases a with
  | sync => exact Option.some.inj hstep ▸ rfl
  | event e => cases e <;> exact Option.some.inj hstep ▸ rfl

theorem Sound.input_eq {w : Watched} (h : w.Sound)
    (htracks : w.proxier.endpoints.Tracks w.objects.slices) :
    w.proxier.syncOnce.2 = latestInput w.proxier.clusterCidr w.objects := by
  have hservices : w.proxier.services.snapshot = (freshServices w.objects.services).snapshot := by
    rw [ServiceCache.snapshot, ServiceCache.snapshot, freshServices_services h.services_byName,
      h.services]
  have hslices : w.proxier.endpoints.snapshot = (freshSlices w.objects.slices).snapshot :=
    EndpointSliceCache.snapshot_congr
      (htracks.byService_eq (EndpointSliceCache.freshSlices_tracks h.slices_byName))
  rw [latestInput, ← hservices, ← hslices]
  rfl

/-- The event brings an object that exists in the version that it has. -/
def Redelivers (o : Objects) : WatchEvent → Prop
  | .serviceAdded s => o.services.get s.metadata = some s
  | .endpointSliceAdded s => o.slices.get s.metadata = some s
  | _ => False

theorem Sound.input_redelivered {w : Watched} (h : w.Sound) {e : WatchEvent}
    (he : Redelivers w.objects e) : (w.proxier.applyEvent e).input = w.proxier.input := by
  cases e with
  | serviceAdded s =>
    have hsame : (w.proxier.services.add s).services = w.proxier.services.services := by
      rw [ServiceCache.add, ServiceCache.modify, h.services]
      exact h.services_byName.sorted.insert_eq_self he
    simp only [Proxier.input, Proxier.applyEvent, ServiceCache.snapshot, hsame]
  | endpointSliceAdded s =>
    have hsame : (w.proxier.endpoints.add s).byService = w.proxier.endpoints.byService :=
      h.slices_wellFormed.insert_eq_self (h.latest s.metadata s he)
    simp only [Proxier.input, Proxier.applyEvent, EndpointSliceCache.snapshot_congr hsame]
  | serviceModified s => cases he
  | serviceDeleted s => cases he
  | endpointSliceModified s => cases he
  | endpointSliceDeleted s => cases he

end Watched

/-! ## Commuting events -/

section

variable {c : ServiceCache} {s s' : Service}

theorem ServiceCache.modify_comm (h : c.services.Sorted) (hne : s.metadata ≠ s'.metadata) :
    (c.modify s).modify s' = (c.modify s').modify s := by
  simp only [modify, h.insert_comm hne]

theorem ServiceCache.modify_delete_comm (h : c.services.Sorted) (hne : s.metadata ≠ s'.metadata) :
    (c.modify s).delete s' = (c.delete s').modify s := by
  simp only [modify, delete, h.insert_remove_comm hne, Bool.true_or]

theorem ServiceCache.delete_comm (hne : s.metadata ≠ s'.metadata) :
    (c.delete s).delete s' = (c.delete s').delete s := by
  simp only [delete, BTreeMap.remove_comm s.metadata s'.metadata,
    BTreeMap.get_remove_ne hne.symm, BTreeMap.get_remove_ne hne, Bool.or_right_comm]

end

section

variable {c : EndpointSliceCache} {s s' : EndpointSlice}

theorem place_ne (hne : s.metadata ≠ s'.metadata) :
    ¬(s.serviceNamespacedName = s'.serviceNamespacedName ∧ s.metadata.name = s'.metadata.name) := by
  rintro ⟨hservice, hname⟩
  have hnamespace := congrArg NamespacedName.namespaceName hservice
  apply hne
  cases hs : s.metadata
  cases hs' : s'.metadata
  simp only [EndpointSlice.serviceNamespacedName, hs, hs'] at hnamespace hname
  rw [hnamespace, hname]

theorem EndpointSliceCache.modify_comm (h : c.byService.WellFormed)
    (hne : s.metadata ≠ s'.metadata) : (c.modify s).modify s' = (c.modify s').modify s := by
  simp only [modify, h.insert_comm (place_ne hne)]

theorem EndpointSliceCache.modify_delete_comm (h : c.byService.WellFormed)
    (hne : s.metadata ≠ s'.metadata) : (c.modify s).delete s' = (c.delete s').modify s := by
  simp only [modify, delete, h.insert_remove_comm (place_ne hne), Bool.true_or]

theorem EndpointSliceCache.delete_comm (h : c.byService.WellFormed)
    (hne : s.metadata ≠ s'.metadata) : (c.delete s).delete s' = (c.delete s').delete s := by
  simp only [delete, h.remove_comm s.serviceNamespacedName s'.serviceNamespacedName,
    NestedMap.get_remove, if_neg (place_ne hne), if_neg (place_ne hne.symm), Bool.or_right_comm]

end

/-- The object that an event is about. -/
inductive ObjectName
  | service (name : NamespacedName)
  | slice (name : NamespacedName)
deriving DecidableEq

def WatchEvent.object : WatchEvent → ObjectName
  | serviceAdded s => .service s.metadata
  | serviceModified s => .service s.metadata
  | serviceDeleted s => .service s.metadata
  | endpointSliceAdded s => .slice s.metadata
  | endpointSliceModified s => .slice s.metadata
  | endpointSliceDeleted s => .slice s.metadata

theorem Proxier.applyEvent_comm {p : Proxier} (hservices : p.services.services.Sorted)
    (hslices : p.endpoints.byService.WellFormed) {e f : WatchEvent} (hne : e.object ≠ f.object) :
    (p.applyEvent e).applyEvent f = (p.applyEvent f).applyEvent e := by
  have hsvc : ∀ {c c' : ServiceCache}, c = c' →
      ({ p with services := c } : Proxier) = { p with services := c' } := fun h => by rw [h]
  have heps : ∀ {c c' : EndpointSliceCache}, c = c' →
      ({ p with endpoints := c } : Proxier) = { p with endpoints := c' } := fun h => by rw [h]
  -- events of a service and of a slice change different caches
  cases e <;> cases f <;> first
    | rfl
    | exact hsvc (ServiceCache.modify_comm hservices fun h => hne (congrArg ObjectName.service h))
    | exact hsvc (ServiceCache.modify_delete_comm hservices fun h => hne (congrArg ObjectName.service h))
    | exact hsvc (ServiceCache.modify_delete_comm hservices fun h => hne (congrArg ObjectName.service h.symm)).symm
    | exact hsvc (ServiceCache.delete_comm fun h => hne (congrArg ObjectName.service h))
    | exact heps (EndpointSliceCache.modify_comm hslices fun h => hne (congrArg ObjectName.slice h))
    | exact heps (EndpointSliceCache.modify_delete_comm hslices fun h => hne (congrArg ObjectName.slice h))
    | exact heps (EndpointSliceCache.modify_delete_comm hslices
        fun h => hne (congrArg ObjectName.slice h.symm)).symm
    | exact heps (EndpointSliceCache.delete_comm hslices fun h => hne (congrArg ObjectName.slice h))

/-! ## The endpoints of the snapshot -/

/-- A latest slice of the service has the endpoint, ready, on the port. -/
def Objects.Serves (o : Objects) (spn : ServicePortName) (e : EndpointInfo) : Prop :=
  ∃ k s, o.slices.get k = some s ∧ s.serviceNamespacedName = spn.namespacedName ∧
    ∃ port ∈ s.ports, port.name = spn.port ∧ port.protocol = spn.protocol ∧
      ∃ ep ∈ s.endpoints, ep.isReady ∧ e.ip ∈ ep.addresses ∧ e.port = port.port

namespace EndpointSliceCache

theorem mem_foldl_push (rows : List (ServicePortName × List EndpointInfo)) (spn : ServicePortName)
    (e : EndpointInfo) :
    (∃ eps, (rows.foldl push []).get spn = some eps ∧ e ∈ eps) ↔
      ∃ row ∈ rows, row.1 = spn ∧ e ∈ row.2 := by
  induction rows using List.reverseRecOn with
  | nil => simp
  | append_singleton rows row ih =>
    rw [List.foldl_append, List.foldl_cons, List.foldl_nil, push, BTreeMap.get_insert]
    have hsplit : (∃ r ∈ rows ++ [row], r.1 = spn ∧ e ∈ r.2) ↔
        (∃ r ∈ rows, r.1 = spn ∧ e ∈ r.2) ∨ row.1 = spn ∧ e ∈ row.2 := by
      simp [or_and_right, exists_or]
    rw [hsplit, ← ih]
    by_cases hspn : spn = row.1
    · rw [if_pos hspn, ← hspn]
      cases (rows.foldl push []).get spn <;> simp
    · rw [if_neg hspn]
      simp [Ne.symm hspn]

theorem mem_destutter (l : List EndpointInfo) (e : EndpointInfo) :
    e ∈ l.destutter (· ≠ ·) ↔ e ∈ l := by
  refine ⟨fun h => (List.destutter_sublist _ l).subset h, fun h => ?_⟩
  have hall : ∀ (l : List EndpointInfo) (a : EndpointInfo), ∀ x ∈ a :: l,
      x ∈ l.destutter' (· ≠ ·) a := by
    intro l
    induction l with
    | nil => simp
    | cons b l ih =>
      intro a x hx
      rw [List.destutter'_cons]
      split
      · rcases List.mem_cons.1 hx with rfl | hx
        · exact List.mem_cons_self
        · exact List.mem_cons_of_mem _ (ih b x hx)
      · rename_i hab
        rw [not_ne_iff] at hab
        subst hab
        apply ih a x
        rcases List.mem_cons.1 hx with rfl | hx
        · exact List.mem_cons_self
        · exact hx
  cases l with
  | nil => cases h
  | cons a l => exact hall l a e h

theorem mem_sortDedup (bucket : List EndpointInfo) (e : EndpointInfo) :
    e ∈ sortDedup bucket ↔ e ∈ bucket := by
  rw [sortDedup, mem_destutter, List.mem_insertionSort]

theorem mem_rows {c : EndpointSliceCache} (h : c.byService.WellFormed)
    (row : ServicePortName × List EndpointInfo) :
    row ∈ c.rows ↔ ∃ name s, c.byService.get row.1.namespacedName name = some s ∧
      ∃ port ∈ s.ports, port.name = row.1.port ∧ port.protocol = row.1.protocol ∧
        row.2 = ready s port.port := by
  obtain ⟨⟨nn, port, protocol⟩, eps⟩ := row
  simp only [rows, List.mem_flatMap, List.mem_map, Prod.mk.injEq, ServicePortName.mk.injEq]
  constructor
  · rintro ⟨⟨nn', slices⟩, hslices, ⟨name, s⟩, hs, p, hp, ⟨rfl, rfl, rfl⟩, rfl⟩
    exact ⟨name, s, h.mem_iff.1 ⟨slices, hslices, hs⟩, p, hp, rfl, rfl, rfl⟩
  · rintro ⟨name, s, hget, p, hp, rfl, rfl, rfl⟩
    obtain ⟨slices, hslices, hs⟩ := h.mem_iff.2 hget
    exact ⟨(nn, slices), hslices, (name, s), hs, p, hp, ⟨rfl, rfl, rfl⟩, rfl⟩

theorem Tracks.mem_snapshot_iff {c : EndpointSliceCache} {o : Objects} (h : c.Tracks o.slices)
    (hnames : ByName EndpointSlice.metadata o.slices) (spn : ServicePortName) (e : EndpointInfo) :
    (∃ eps, c.snapshot.get spn = some eps ∧ e ∈ eps) ↔ o.Serves spn e := by
  have hbucket : (∃ eps, c.snapshot.get spn = some eps ∧ e ∈ eps) ↔
      ∃ row ∈ c.rows, row.1 = spn ∧ e ∈ row.2 := by
    rw [← mem_foldl_push, snapshot, BTreeMap.get_map]
    constructor
    · rintro ⟨eps, hget, he⟩
      obtain ⟨bucket, hbucket, rfl⟩ := Option.map_eq_some_iff.1 hget
      exact ⟨bucket, hbucket, (mem_sortDedup bucket e).1 he⟩
    · rintro ⟨bucket, hbucket, he⟩
      exact ⟨sortDedup bucket, by rw [hbucket, Option.map_some], (mem_sortDedup bucket e).2 he⟩
  have hready : ∀ (s : EndpointSlice) (port : Int), e ∈ ready s port ↔
      ∃ ep ∈ s.endpoints, ep.isReady ∧ e.ip ∈ ep.addresses ∧ e.port = port := by
    intro s port
    simp only [ready, List.mem_flatMap]
    apply exists_congr
    intro ep
    apply and_congr_right
    intro _
    cases ep.isReady with
    | false => simp
    | true =>
      obtain ⟨ip, p⟩ := e
      simp [eq_comm]
  rw [hbucket]
  simp only [mem_rows h.wellFormed, h.get, Option.filter_eq_some_iff, decide_eq_true_eq]
  constructor
  · rintro ⟨row, ⟨name, s, ⟨hget, hservice⟩, port, hport, hname, hprotocol, hrow⟩, rfl, he⟩
    rw [hrow, hready] at he
    exact ⟨_, s, hget, hservice, port, hport, hname, hprotocol, he⟩
  · rintro ⟨k, s, hget, hservice, port, hport, hname, hprotocol, he⟩
    refine ⟨(spn, ready s port.port), ⟨k.name, s, ⟨?_, hservice⟩, port, hport, hname, hprotocol,
      rfl⟩, rfl, (hready s port.port).2 he⟩
    have hkey : (⟨spn.namespacedName.namespaceName, k.name⟩ : NamespacedName) = k := by
      rw [← hservice, EndpointSlice.serviceNamespacedName, hnames.name_eq k s hget]
    rw [hkey]
    exact hget

end EndpointSliceCache

/-! ## The law -/

namespace Watched

variable {clusterCidr : Option String} {steps : List Step} {w : Watched}

theorem run_clusterCidr (h : Runs.run step (start clusterCidr) steps = some w) :
    w.proxier.clusterCidr = clusterCidr := by
  have hkept : ∀ s a t, s.proxier.clusterCidr = clusterCidr → step s a = some t →
      t.proxier.clusterCidr = clusterCidr :=
    fun _ _ _ hs hstep => (clusterCidr_step hstep).trans hs
  have hrun := Runs.invariant hkept rfl h
  exact hrun

theorem run_sound (h : Runs.run step (start clusterCidr) steps = some w) : w.Sound :=
  Runs.invariant (fun _ _ _ hs hstep => hs.step hstep) (start_sound clusterCidr) h

theorem run_tracks (hlabels : Runs.Along step KeepsLabel (start clusterCidr) steps)
    (h : Runs.run step (start clusterCidr) steps = some w) :
    w.Sound ∧ w.proxier.endpoints.Tracks w.objects.slices := by
  have hkept : ∀ s a t, KeepsLabel s a → s.Sound ∧ s.proxier.endpoints.Tracks s.objects.slices →
      step s a = some t → t.Sound ∧ t.proxier.endpoints.Tracks t.objects.slices :=
    fun _ _ _ hlabel hs hstep => ⟨hs.1.step hstep, hs.1.tracks_step hlabel hs.2 hstep⟩
  have hrun := Runs.invariant_along hkept hlabels
    ⟨start_sound clusterCidr, EndpointSliceCache.new_tracks⟩ h
  exact hrun

/-- After every run: as long as slices kept their labels, a sync builds its input from the latest
versions of the objects that exist, and its endpoints are exactly the ready ones of these; an event
that is delivered again changes no input; events on different objects commute; and an input that
differs from the one of the last sync has set a flag. -/
theorem caches_track_latest (h : Runs.run step (start clusterCidr) steps = some w) :
    (Runs.Along step KeepsLabel (start clusterCidr) steps →
      w.proxier.syncOnce.2 = latestInput clusterCidr w.objects ∧
      ∀ spn e, (∃ eps, w.proxier.syncOnce.2.endpointsByService.get spn = some eps ∧ e ∈ eps) ↔
        w.objects.Serves spn e) ∧
    (∀ e, Redelivers w.objects e → (w.proxier.applyEvent e).input = w.proxier.input) ∧
    (∀ e f : WatchEvent, e.object ≠ f.object →
      (w.proxier.applyEvent e).applyEvent f = (w.proxier.applyEvent f).applyEvent e) ∧
    (w.proxier.input ≠ w.synced →
      w.proxier.services.dirty = true ∨ w.proxier.endpoints.dirty = true) := by
  have hsound := run_sound h
  refine ⟨fun hlabels => ?_, fun e he => hsound.input_redelivered he, fun e f hne => ?_,
    fun hne => ?_⟩
  · have htracks := (run_tracks hlabels h).2
    constructor
    · rw [hsound.input_eq htracks, run_clusterCidr h]
    · exact htracks.mem_snapshot_iff hsound.slices_byName
  · apply Proxier.applyEvent_comm _ hsound.slices_wellFormed hne
    rw [hsound.services]
    exact hsound.services_byName.sorted
  · by_contra hclean
    rw [not_or, Bool.not_eq_true, Bool.not_eq_true] at hclean
    exact hne (hsound.clean hclean.1 hclean.2)

/-- A slice with one ready endpoint, labelled with a service. -/
def oneEndpoint (serviceName : String) : EndpointSlice where
  metadata := ⟨"ns1", "slice1"⟩
  serviceName := serviceName
  ports := [⟨"p80", 80, .tcp⟩]
  endpoints := [⟨["10.180.0.1"], ⟨some true⟩⟩]

/-- A slice that changes its label keeps serving the service of the old one. -/
theorem relabelled_slice_survives : ∃ w, Runs.run step (start none)
      [.event (.endpointSliceAdded (oneEndpoint "svc1")),
        .event (.endpointSliceModified (oneEndpoint "svc2"))] = some w ∧
    w.proxier.syncOnce.2.endpointsByService.get ⟨⟨"ns1", "svc1"⟩, "p80", .tcp⟩ =
      some [⟨"10.180.0.1", 80⟩] ∧
    (latestInput none w.objects).endpointsByService.get ⟨⟨"ns1", "svc1"⟩, "p80", .tcp⟩ = none := by
  refine ⟨_, rfl, ?_, ?_⟩ <;> decide

theorem caches_track_latest_demo : ∃ w, Runs.run step (start none)
      [.event (.endpointSliceAdded (oneEndpoint "svc1"))] = some w ∧
    w.proxier.syncOnce.2 = latestInput none w.objects ∧
    (w.proxier.services.dirty = true ∨ w.proxier.endpoints.dirty = true) := by
  have hrun : Runs.run step (start none)
      [.event (.endpointSliceAdded (oneEndpoint "svc1"))] = some _ := rfl
  refine ⟨_, hrun, ?_⟩
  have hlaw := caches_track_latest hrun
  refine ⟨(hlaw.1 (Runs.along_cons ?_ rfl trivial)).1, hlaw.2.2.2 ?_⟩
  · intro s hs old hold
    cases hold
  · intro heq
    have hget := congrArg
      (fun i : BuildInput => i.endpointsByService.get ⟨⟨"ns1", "svc1"⟩, "p80", .tcp⟩) heq
    revert hget
    decide

end Watched

end CaveHome.KubeProxy
