import CaveHome.Secrets.Keyring
import Mathlib.Data.UInt

/-!
# Rotating keys

The operator rotates the keys of a transformer and switches how it writes, while values are
stored.  Each stored value is remembered with the key that sealed it, and is readable until that
key has been pruned.
-/

namespace CaveHome.Secrets

/-- A value that was stored: its bytes, the key that sealed it if one did, and whether that key
has been pruned since. -/
structure Stored where
  plaintext : Bytes
  value : Bytes
  sealedBy : Option KeyId
  pruned : Bool

structure State (C : Crypto) where
  transformer : Transformer C
  stored : List Stored

inductive Op (C : Crypto)
  | prepare (id : KeyId) (kek : KekKeypair C)
  | rotate
  | prune
  | rotateKeys (id : KeyId) (kek : KekKeypair C)
  | setMode (mode : WriteMode)
  | toStorage (plaintext : Bytes) (r : SealRandomness)

variable {C : Crypto}

def Stored.markPruned (ids : List KeyId) (v : Stored) : Stored :=
  { v with pruned := v.pruned || ids.any fun id => v.sealedBy = some id }

namespace State

def start (id : KeyId) (kek : KekKeypair C) (mode : WriteMode) : State C :=
  ⟨⟨⟨Keyring.new id kek⟩, mode⟩, []⟩

def ring (s : State C) : Keyring C := s.transformer.provider.keyring

def setRing (s : State C) (ring : Keyring C) : State C :=
  { s with transformer := { s.transformer with provider := ⟨ring⟩ } }

/-- The key that seals what is stored next. -/
def sealer (s : State C) : Option KeyId :=
  match s.transformer.writeMode with
  | .encrypt => s.ring.writeKey.map EncryptionKey.id
  | .identity => none

/-- What a call answers and leaves behind; `none` where the source panics. -/
def apply (s : State C) : Op C → Option (Except (KeyringError ⊕ TransformError) Unit × State C)
  | .prepare id kek =>
    match s.ring.prepare id kek with
    | (.error e, ring) => some (.error (.inl e), s.setRing ring)
    | (.ok (), ring) => some (.ok (), s.setRing ring)
  | .rotate =>
    match s.ring.rotate with
    | none => none
    | some (.error e, ring) => some (.error (.inl e), s.setRing ring)
    | some (.ok _, ring) => some (.ok (), s.setRing ring)
  | .prune =>
    match s.ring.prune with
    | (.error e, ring) => some (.error (.inl e), s.setRing ring)
    | (.ok ids, ring) =>
      some (.ok (), { s.setRing ring with stored := s.stored.map (Stored.markPruned ids) })
  | .rotateKeys id kek =>
    match s.ring.rotateKeys id kek with
    | none => none
    | some (.error e, ring) => some (.error (.inl e), s.setRing ring)
    | some (.ok (), ring) => some (.ok (), s.setRing ring)
  | .setMode mode => some (.ok (), { s with transformer := ⟨s.transformer.provider, mode⟩ })
  | .toStorage plaintext r =>
    match s.transformer.toStorage plaintext r with
    | none => none
    | some (.error e) => some (.error (.inr e), s)
    | some (.ok value) =>
      some (.ok (), { s with stored := ⟨plaintext, value, s.sealer, false⟩ :: s.stored })

def run (s : State C) : List (Op C) → Option (State C)
  | [] => some s
  | op :: ops =>
    match s.apply op with
    | none => none
    | some (_, s') => s'.run ops

@[simp] theorem ring_setRing (s : State C) (ring : Keyring C) : (s.setRing ring).ring = ring := rfl

@[simp] theorem setRing_ring (s : State C) : s.setRing s.ring = s := rfl

end State

/-! ## Values that stay readable -/

/-- The value is in the clear, or is sealed to the key that the ring finds under its name. -/
inductive Readable (ring : Keyring C) (v : Stored) : Prop
  | clear (hkey : v.sealedBy = none) (hvalue : v.value = identityPrefix ++ v.plaintext)
  | encrypted (key : EncryptionKey C) (blob : Bytes) (r : SealRandomness)
    (hkey : v.sealedBy = some key.id) (hfind : ring.find key.id = some key)
    (hblob : sealBlob v.plaintext key.kek.public_ (Bytes.ofString key.id.asStr) r = .ok blob)
    (hvalue : v.value = encPrefix ++ Bytes.ofString key.id.asStr ++ [0x3A] ++ blob)

/-- The other ring finds the same key pair under a name. -/
def Keyring.Keeps (ring ring' : Keyring C) (id : KeyId) : Prop :=
  ∀ key, ring.find id = some key →
    ∃ state, ring'.find id = some { key with state := state }

theorem Keyring.find_two (a b : EncryptionKey C) (phase : RotationPhase) (id : KeyId) :
    (⟨[a, b], phase⟩ : Keyring C).find id =
      if a.id = id then some a else if b.id = id then some b else none := by
  unfold find
  by_cases ha : a.id = id <;> by_cases hb : b.id = id <;> simp [ha, hb]

theorem Readable.of_keeps {ring ring' : Keyring C} {v : Stored} (h : Readable ring v)
    (hkeeps : ∀ id, v.sealedBy = some id → ring.Keeps ring' id) : Readable ring' v := by
  cases h with
  | clear hkey hvalue => exact .clear hkey hvalue
  | encrypted key blob r hkey hfind hblob hvalue =>
    obtain ⟨state, hfind'⟩ := hkeeps key.id hkey key hfind
    exact .encrypted { key with state := state } blob r hkey hfind' hblob hvalue

theorem Readable.fromStorage (hC : C.Correct) {t : Transformer C} {v : Stored}
    (h : Readable t.provider.keyring v) : t.fromStorage v.value = .ok v.plaintext := by
  cases h with
  | clear hkey hvalue => rw [hvalue, t.fromStorage_identity]
  | encrypted key blob r hkey hfind hblob hvalue =>
    rw [hvalue, Transformer.fromStorage_sealed hC hfind rfl hblob]

/-- What holds after every run of calls. -/
structure Inv (s : State C) : Prop where
  shaped : s.ring.Shaped
  readable : ∀ v ∈ s.stored, v.pruned = false → Readable s.ring v

theorem inv_start (id : KeyId) (kek : KekKeypair C) (mode : WriteMode) :
    Inv (State.start id kek mode) where
  shaped := Keyring.shaped_new id kek
  readable := fun _ h => absurd h List.not_mem_nil

theorem Inv.setRing {s : State C} (h : Inv s) {ring : Keyring C} (hshaped : ring.Shaped)
    (hkeeps : ∀ id, s.ring.Keeps ring id) : Inv (s.setRing ring) where
  shaped := hshaped
  readable := fun v hv hp => (h.readable v hv hp).of_keeps fun id _ => hkeeps id

/-! ## One call -/

/-- A call is answered, one that fails changes nothing, and the invariant is kept. -/
def Fine (s : State C) (op : Op C) : Prop :=
  ∃ res s', s.apply op = some (res, s') ∧ (∀ e, res = .error e → s' = s) ∧ Inv s'

theorem fine_of_error {s : State C} {op : Op C} {e : KeyringError ⊕ TransformError} (h : Inv s)
    (happly : s.apply op = some (.error e, s)) : Fine s op :=
  ⟨_, _, happly, fun _ _ => rfl, h⟩

theorem fine_of_ok {s s' : State C} {op : Op C} (happly : s.apply op = some (.ok (), s'))
    (h : Inv s') : Fine s op :=
  ⟨.ok (), s', happly, fun _ he => (nomatch he), h⟩

section

variable {s : State C} (h : Inv s)

include h

theorem Inv.prepare (id : KeyId) (kek : KekKeypair C) : Fine s (.prepare id kek) := by
  rcases h.shaped.prepare_cases id kek with ⟨e, he⟩ | ⟨write, hring, hwrite, hid, hok⟩
  · have happly : s.apply (.prepare id kek) = some (.error (.inl e), s) := by
      simp only [State.apply, he, State.setRing_ring]
    exact fine_of_error h happly
  · have happly : s.apply (.prepare id kek) =
        some (.ok (), s.setRing ⟨[write, ⟨id, kek, .readOnly⟩], .prepared⟩) := by
      simp only [State.apply, hok]
    refine fine_of_ok happly (h.setRing (Keyring.shaped_two hwrite rfl hid (by decide)) ?_)
    intro id' key hfind
    rw [hring, Keyring.find_one] at hfind
    split_ifs at hfind with hwid
    cases hfind
    exact ⟨write.state, by rw [Keyring.find_two, if_pos hwid]⟩

theorem Inv.rotate : Fine s .rotate := by
  rcases h.shaped.rotate_cases with ⟨-, he⟩ | ⟨write, read, hring, hid, hok⟩
  · have happly : s.apply .rotate = some (.error (.inl .nothingToRotate), s) := by
      simp only [State.apply, he, State.setRing_ring]
    exact fine_of_error h happly
  · have happly : s.apply .rotate = some (.ok (), s.setRing
        ⟨[{ read with state := .writeRead }, { write with state := .readOnly }], .rotated⟩) := by
      simp only [State.apply, hok]
    refine fine_of_ok happly (h.setRing (Keyring.shaped_two rfl rfl hid.symm (by decide)) ?_)
    intro id' key hfind
    rw [hring, Keyring.find_two] at hfind
    rw [Keyring.find_two]
    split_ifs at hfind with hwid hrid
    · cases hfind
      exact ⟨.readOnly, by rw [if_neg fun hr => hid (hwid.trans hr.symm), if_pos hwid]⟩
    · cases hfind
      exact ⟨.writeRead, if_pos hrid⟩

theorem Inv.rotateKeys (id : KeyId) (kek : KekKeypair C) : Fine s (.rotateKeys id kek) := by
  rcases h.shaped.rotateKeys_cases id kek with ⟨e, he⟩ | ⟨write, hring, hid, hok⟩
  · have happly : s.apply (.rotateKeys id kek) = some (.error (.inl e), s) := by
      simp only [State.apply, he, State.setRing_ring]
    exact fine_of_error h happly
  · have happly : s.apply (.rotateKeys id kek) = some (.ok (), s.setRing
        ⟨[⟨id, kek, .writeRead⟩, { write with state := .readOnly }], .rotated⟩) := by
      simp only [State.apply, hok]
    refine fine_of_ok happly (h.setRing (Keyring.shaped_two rfl rfl hid.symm (by decide)) ?_)
    intro id' key hfind
    rw [hring, Keyring.find_one] at hfind
    split_ifs at hfind with hwid
    cases hfind
    exact ⟨.readOnly, by
      rw [Keyring.find_two, if_neg fun hr => hid (hwid.trans hr.symm), if_pos hwid]⟩

theorem Inv.prune : Fine s .prune := by
  rcases h.shaped.prune_cases with ⟨e, he⟩ | ⟨write, read, hring, hwrite, hok⟩
  · have happly : s.apply .prune = some (.error (.inl e), s) := by
      simp only [State.apply, he, State.setRing_ring]
    exact fine_of_error h happly
  · have happly : s.apply .prune = some (.ok (), { s.setRing ⟨[write], .steady⟩ with
        stored := s.stored.map (Stored.markPruned [read.id]) }) := by
      simp only [State.apply, hok]
    refine fine_of_ok happly ⟨Keyring.shaped_one hwrite, ?_⟩
    intro v' hv' hp'
    obtain ⟨v, hv, rfl⟩ := List.mem_map.mp hv'
    obtain ⟨hp, hdropped⟩ := Bool.or_eq_false_iff.mp hp'
    have hread : v.sealedBy ≠ some read.id := by simpa using hdropped
    have hkept : Readable (⟨[write], .steady⟩ : Keyring C) v := by
      refine (h.readable v hv hp).of_keeps fun id hid key hfind => ?_
      rw [hring, Keyring.find_two] at hfind
      split_ifs at hfind with hwid hrid
      · cases hfind
        exact ⟨write.state, by rw [Keyring.find_one, if_pos hwid]⟩
      · exact absurd (hid.trans (congrArg some hrid.symm)) hread
    cases hkept with
    | clear hkey hvalue => exact .clear hkey hvalue
    | encrypted key blob r hkey hfind hblob hvalue =>
      exact .encrypted key blob r hkey hfind hblob hvalue

theorem Inv.setMode (mode : WriteMode) : Fine s (.setMode mode) :=
  fine_of_ok rfl ⟨h.shaped, h.readable⟩

theorem Inv.toStorage (plaintext : Bytes) (r : SealRandomness) :
    Fine s (.toStorage plaintext r) := by
  have hadd (value : Bytes) (hv : Readable s.ring ⟨plaintext, value, s.sealer, false⟩) :
      Inv { s with stored := ⟨plaintext, value, s.sealer, false⟩ :: s.stored } := by
    refine ⟨h.shaped, fun v hmem hp => ?_⟩
    rcases List.mem_cons.mp hmem with rfl | hmem
    · exact hv
    · exact h.readable v hmem hp
  obtain ⟨write, hwrite⟩ : ∃ write, s.ring.writeKey = some write :=
    Option.isSome_iff_exists.mp (List.isSome_head?.mpr h.shaped.nonempty)
  have hfind : s.ring.find write.id = some write := by
    obtain ⟨rest, hrest⟩ := List.head?_eq_some_iff.mp hwrite
    unfold Keyring.find
    rw [hrest, List.find?_cons_of_pos (by simp)]
  cases hmode : s.transformer.writeMode with
  | identity =>
    have hclear : s.sealer = none := by simp only [State.sealer, hmode]
    have happly : s.apply (.toStorage plaintext r) = some (.ok (), { s with stored :=
        ⟨plaintext, identityPrefix ++ plaintext, s.sealer, false⟩ :: s.stored }) := by
      simp only [State.apply, Transformer.toStorage, hmode]
    exact fine_of_ok happly (hadd _ (.clear hclear rfl))
  | encrypt =>
    have hkey : s.transformer.provider.keyring.writeKey = some write := hwrite
    cases hblob : sealBlob plaintext write.kek.public_ (Bytes.ofString write.id.asStr) r with
    | error e =>
      have henc : s.transformer.provider.encryptWith plaintext r =
          some (.error (.envelope e)) := by
        simp only [LocalKmsProvider.encryptWith, hkey, Option.map_some, hblob]
      have happly : s.apply (.toStorage plaintext r) =
          some (.error (.inr (.provider (.envelope e))), s) := by
        simp only [State.apply, Transformer.toStorage, hmode, henc, Option.map_some]
      exact fine_of_error h happly
    | ok blob =>
      have henc : s.transformer.provider.encryptWith plaintext r =
          some (.ok ⟨write.id, blob⟩) := by
        simp only [LocalKmsProvider.encryptWith, hkey, Option.map_some, hblob]
      have hsealer : s.sealer = some write.id := by
        simp only [State.sealer, hmode, hwrite, Option.map_some]
      have happly : s.apply (.toStorage plaintext r) = some (.ok (), { s with stored :=
          ⟨plaintext, encPrefix ++ Bytes.ofString write.id.asStr ++ [0x3A] ++ blob, s.sealer,
            false⟩ :: s.stored }) := by
        simp only [State.apply, Transformer.toStorage, hmode, henc, Option.map_some]
      exact fine_of_ok happly (hadd _ (.encrypted write blob r hsealer hfind hblob rfl))

theorem Inv.fine (op : Op C) : Fine s op := by
  cases op with
  | prepare id kek => exact h.prepare id kek
  | rotate => exact h.rotate
  | prune => exact h.prune
  | rotateKeys id kek => exact h.rotateKeys id kek
  | setMode mode => exact h.setMode mode
  | toStorage plaintext r => exact h.toStorage plaintext r

theorem Inv.run (ops : List (Op C)) : ∃ s', s.run ops = some s' ∧ Inv s' := by
  induction ops generalizing s with
  | nil => exact ⟨s, rfl, h⟩
  | cons op ops ih =>
    obtain ⟨res, s', happly, -, hs'⟩ := h.fine op
    obtain ⟨s'', hrun, hs''⟩ := ih hs'
    exact ⟨s'', by simp only [State.run, happly, hrun], hs''⟩

end

/-- After any calls the ring has its shape, no call panics, a call that fails changes nothing,
and every value is read back as long as the key that sealed it has not been pruned. -/
theorem rotation_loses_nothing (hC : C.Correct) (id : KeyId) (kek : KekKeypair C)
    (mode : WriteMode) (ops : List (Op C)) :
    ∃ s, (State.start id kek mode).run ops = some s ∧ s.ring.Shaped ∧
      (∀ op, ∃ res s', s.apply op = some (res, s') ∧ ∀ e, res = .error e → s' = s) ∧
      ∀ v ∈ s.stored, v.pruned = false → s.transformer.fromStorage v.value = .ok v.plaintext := by
  obtain ⟨s, hrun, h⟩ := (inv_start id kek mode).run ops
  refine ⟨s, hrun, h.shaped, fun op => ?_, fun v hv hp => (h.readable v hv hp).fromStorage hC⟩
  obtain ⟨res, s', happly, herror, -⟩ := h.fine op
  exact ⟨res, s', happly, herror⟩

/-- Primitives that keep no secret: a key pair is one string of bytes, which is also the shared
secret, and the tag is a checksum of the key, the nonce and the associated data. -/
def transparent : Crypto where
  DecapsulationKey := Bytes
  EncapsulationKey := Bytes
  encapsulationKey := fun dk => dk
  encapsulateDeterministic := fun ek _ => (List.replicate 1088 0, ek)
  decapsulate := fun dk _ => dk
  hkdfExpand := fun shared => some shared
  encrypt := fun key nonce msg aad =>
    some (msg ++ List.replicate 16 (key ++ nonce ++ aad).sum)
  decrypt := fun key nonce ct aad =>
    if ct.drop (ct.length - 16) = List.replicate 16 (key ++ nonce ++ aad).sum then
      some (ct.take (ct.length - 16))
    else none

theorem transparent_correct : transparent.Correct where
  length_encapsulate := fun _ _ => List.length_replicate
  decapsulate_encapsulate := fun _ _ => rfl
  length_encrypt := fun h => by
    rw [← Option.some.inj h, List.length_append, List.length_replicate]
  decrypt_encrypt := fun {key nonce msg aad ct} h => by
    obtain rfl : msg ++ List.replicate 16 (key ++ nonce ++ aad).sum = ct := Option.some.inj h
    have hlen : (msg ++ List.replicate 16 (key ++ nonce ++ aad).sum).length - 16 = msg.length := by
      rw [List.length_append, List.length_replicate, Nat.add_sub_cancel]
    show (if _ then _ else _) = _
    rw [hlen, List.drop_left, if_pos rfl, List.take_left]

/-- A value is stored, the keys are rotated, another value is stored, and the old key is pruned. -/
theorem rotation_loses_nothing_demo :
    let old : KeyId := ⟨"key-1", by decide⟩
    let next : KeyId := ⟨"key-2", by decide⟩
    let r : SealRandomness :=
      ⟨List.replicate 32 1, List.replicate 12 2, List.replicate 32 3, List.replicate 12 4,
        rfl, rfl, rfl, rfl⟩
    let ops : List (Op transparent) :=
      [.toStorage [0x3A] r, .rotateKeys next ⟨[6]⟩, .toStorage [0x3A, 0x3A] r, .prune]
    ∃ s, (State.start old ⟨[5]⟩ .encrypt).run ops = some s ∧ s.ring.Shaped ∧
      (∀ op, ∃ res s', s.apply op = some (res, s') ∧ ∀ e, res = .error e → s' = s) ∧
      ∀ v ∈ s.stored, v.pruned = false → s.transformer.fromStorage v.value = .ok v.plaintext :=
  rotation_loses_nothing transparent_correct _ _ _ _

end CaveHome.Secrets
