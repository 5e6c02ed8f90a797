import CaveHome.Lib.Decoder
import Mathlib.Data.List.Nodup

/-!
# Envelopes

A value is sealed under a data key, and the data key under a key that the two sides of a key pair
can agree on.  The primitives come from other packages; `Crypto` is what is relied on.
-/

namespace CaveHome.Secrets

/-- The primitives: ML-KEM-768, HKDF-SHA256 with the salt and the label of the program, and
AES-256-GCM. -/
structure Crypto where
  DecapsulationKey : Type
  EncapsulationKey : Type
  encapsulationKey : DecapsulationKey → EncapsulationKey
  /-- The ciphertext and the shared secret for a message. -/
  encapsulateDeterministic : EncapsulationKey → Bytes → Bytes × Bytes
  decapsulate : DecapsulationKey → Bytes → Bytes
  hkdfExpand : Bytes → Option Bytes
  /-- Key, nonce, message and associated data. -/
  encrypt : Bytes → Bytes → Bytes → Bytes → Option Bytes
  decrypt : Bytes → Bytes → Bytes → Bytes → Option Bytes

/-- What the primitives promise. -/
structure Crypto.Correct (C : Crypto) : Prop where
  /-- Ciphertexts of ML-KEM-768 have 1088 bytes. -/
  length_encapsulate : ∀ ek m, (C.encapsulateDeterministic ek m).1.length = 1088
  /-- The key that fits recovers the shared secret. -/
  decapsulate_encapsulate : ∀ dk m,
    C.decapsulate dk (C.encapsulateDeterministic (C.encapsulationKey dk) m).1 =
      (C.encapsulateDeterministic (C.encapsulationKey dk) m).2
  /-- The tag adds 16 bytes. -/
  length_encrypt : ∀ {key nonce msg aad ct}, C.encrypt key nonce msg aad = some ct →
    ct.length = msg.length + 16
  /-- The same key, nonce and associated data open what was sealed. -/
  decrypt_encrypt : ∀ {key nonce msg aad ct}, C.encrypt key nonce msg aad = some ct →
    C.decrypt key nonce ct aad = some msg

inductive EnvelopeError
  | badMagic
  | truncated
  | badPublicKey
  | badCiphertext
  | aead
deriving DecidableEq

def magic : Bytes := Bytes.ofString "CAVEPQE1"

def mlKem768CtLen : Nat := 1088

def nonceLen : Nat := 12

def wrappedDekLen : Nat := 32 + 16

/-- The length of everything before the sealed value. -/
def headerLen : Nat := 8 + mlKem768CtLen + nonceLen + wrappedDekLen + nonceLen

/-- What sealing draws at random. -/
structure SealRandomness where
  dataKey : Bytes
  dataNonce : Bytes
  kemMessage : Bytes
  wrapNonce : Bytes
  length_dataKey : dataKey.length = 32
  length_dataNonce : dataNonce.length = nonceLen
  length_kemMessage : kemMessage.length = 32
  length_wrapNonce : wrapNonce.length = nonceLen

structure KekKeypair (C : Crypto) where
  dk : C.DecapsulationKey

structure KekPublic (C : Crypto) where
  ek : C.EncapsulationKey

variable {C : Crypto}

/-- The public half of a key pair. -/
def KekKeypair.public_ (kek : KekKeypair C) : KekPublic C := ⟨C.encapsulationKey kek.dk⟩

def deriveWrapKey (C : Crypto) (shared : Bytes) : Except EnvelopeError Bytes :=
  match C.hkdfExpand shared with
  | some key => .ok key
  | none => .error .aead

def aesSeal (C : Crypto) (key nonce msg aad : Bytes) : Except EnvelopeError Bytes :=
  match C.encrypt key nonce msg aad with
  | some ct => .ok ct
  | none => .error .aead

def aesOpen (C : Crypto) (key nonce ct aad : Bytes) : Except EnvelopeError Bytes :=
  match C.decrypt key nonce ct aad with
  | some msg => .ok msg
  | none => .error .aead

/-- Seal a value to a key. -/
def sealBlob (plaintext : Bytes) (kek : KekPublic C) (aad : Bytes) (r : SealRandomness) :
    Except EnvelopeError Bytes := do
  let (kemCt, shared) := C.encapsulateDeterministic kek.ek r.kemMessage
  let wrapKey ← deriveWrapKey C shared
  let wrappedDek ← aesSeal C wrapKey r.wrapNonce r.dataKey aad
  let dataCt ← aesSeal C r.dataKey r.dataNonce plaintext aad
  return magic ++ kemCt ++ r.wrapNonce ++ wrappedDek ++ r.dataNonce ++ dataCt

/-- Open a sealed value. -/
def openBlob (blob : Bytes) (kek : KekKeypair C) (aad : Bytes) : Except EnvelopeError Bytes := do
  if blob.length < headerLen then throw .truncated
  let (start, rest) := blob.splitAt magic.length
  if start ≠ magic then throw .badMagic
  let (kemCtBytes, rest) := rest.splitAt mlKem768CtLen
  let (wrapNonce, rest) := rest.splitAt nonceLen
  let (wrappedDek, rest) := rest.splitAt wrappedDekLen
  let (dataNonce, dataCt) := rest.splitAt nonceLen
  if kemCtBytes.length ≠ mlKem768CtLen then throw .badCiphertext
  let wrapKey ← deriveWrapKey C (C.decapsulate kek.dk kemCtBytes)
  let dek ← aesOpen C wrapKey wrapNonce wrappedDek aad
  aesOpen C dek dataNonce dataCt aad

theorem length_magic : magic.length = 8 := by decide

theorem splitAt_append {α : Type} {n : Nat} {front rest : List α} (h : front.length = n) :
    (front ++ rest).splitAt n = (front, rest) := by
  rw [List.splitAt_eq, List.take_left' h, List.drop_left' h]

theorem aesSeal_eq_ok (hC : C.Correct) {key nonce msg aad ct : Bytes}
    (h : aesSeal C key nonce msg aad = .ok ct) :
    ct.length = msg.length + 16 ∧ aesOpen C key nonce ct aad = .ok msg := by
  unfold aesSeal at h
  split at h
  next ct' hct =>
    cases h
    exact ⟨hC.length_encrypt hct, by rw [aesOpen, hC.decrypt_encrypt hct]⟩
  next => cases h

theorem openBlob_append (kek : KekKeypair C) (aad : Bytes)
    {kemCt wrapNonce wrappedDek dataNonce dataCt : Bytes} (hkem : kemCt.length = mlKem768CtLen)
    (hwrapNonce : wrapNonce.length = nonceLen) (hwrapped : wrappedDek.length = wrappedDekLen)
    (hdataNonce : dataNonce.length = nonceLen) :
    openBlob (magic ++ kemCt ++ wrapNonce ++ wrappedDek ++ dataNonce ++ dataCt) kek aad = (do
      let wrapKey ← deriveWrapKey C (C.decapsulate kek.dk kemCt)
      let dek ← aesOpen C wrapKey wrapNonce wrappedDek aad
      aesOpen C dek dataNonce dataCt aad) := by
  have hlen : ¬(magic ++ kemCt ++ wrapNonce ++ wrappedDek ++ dataNonce ++ dataCt).length <
      headerLen := by
    simp only [List.length_append, length_magic, hkem, hwrapNonce, hwrapped, hdataNonce,
      headerLen]
    omega
  rw [openBlob, if_neg hlen]
  simp only [List.append_assoc, splitAt_append rfl, splitAt_append hkem,
    splitAt_append hwrapNonce, splitAt_append hwrapped, splitAt_append hdataNonce, hkem]
  rfl

theorem openBlob_sealBlob (hC : C.Correct) {plaintext aad blob : Bytes} {kek : KekKeypair C}
    {r : SealRandomness} (h : sealBlob plaintext kek.public_ aad r = .ok blob) :
    openBlob blob kek aad = .ok plaintext := by
  obtain ⟨wrapKey, hwrapKey, h⟩ := Except.bind_eq_ok_iff.mp h
  obtain ⟨wrappedDek, hwrap, h⟩ := Except.bind_eq_ok_iff.mp h
  obtain ⟨dataCt, hdata, h⟩ := Except.bind_eq_ok_iff.mp h
  have hblob := Except.pure_eq_ok_iff.mp h
  obtain ⟨hwrapLen, hwrapOpen⟩ := aesSeal_eq_ok hC hwrap
  have hdataOpen := (aesSeal_eq_ok hC hdata).2
  rw [r.length_dataKey] at hwrapLen
  have hdecap : C.decapsulate kek.dk (C.encapsulateDeterministic kek.public_.ek r.kemMessage).1 =
      (C.encapsulateDeterministic kek.public_.ek r.kemMessage).2 :=
    hC.decapsulate_encapsulate kek.dk r.kemMessage
  rw [← hblob, openBlob_append kek aad (hC.length_encapsulate _ _) r.length_wrapNonce hwrapLen
    r.length_dataNonce, hdecap, hwrapKey]
  exact Except.bind_eq_ok_iff.mpr ⟨wrapKey, rfl,
    Except.bind_eq_ok_iff.mpr ⟨r.dataKey, hwrapOpen, hdataOpen⟩⟩

end CaveHome.Secrets

/-!
## The keyring

The first key of the ring writes, and every key of it reads.  A rotation prepares a second key,
makes it the first one, and prunes the one that it replaces.
-/

namespace CaveHome.Secrets

inductive KeyringError
  | invalidKeyId
  | duplicateKeyId
  | wrongPhase
  | nothingToRotate
deriving DecidableEq

def maxKeyIdLen : Nat := 63

def isKeyIdByte (b : UInt8) : Bool :=
  (0x30 ≤ b && b ≤ 0x39) || (0x41 ≤ b && b ≤ 0x5A) || (0x61 ≤ b && b ≤ 0x7A) ||
    b == 0x2D || b == 0x5F || b == 0x2E

def validKeyId (id : String) : Bool :=
  id ≠ "" && (Bytes.ofString id).length ≤ maxKeyIdLen && (Bytes.ofString id).all isKeyIdByte

/-- The name of a key, which stands between colons in a stored value. -/
structure KeyId where
  asStr : String
  valid : validKeyId asStr = true
deriving DecidableEq

def KeyId.new (id : String) : Except KeyringError KeyId :=
  if h : validKeyId id = true then .ok ⟨id, h⟩ else .error .invalidKeyId

inductive KeyState
  | writeRead
  | readOnly
deriving DecidableEq

structure EncryptionKey (C : Crypto) where
  id : KeyId
  kek : KekKeypair C
  state : KeyState

inductive RotationPhase
  | steady
  | prepared
  | rotated
deriving DecidableEq

structure Keyring (C : Crypto) where
  keys : List (EncryptionKey C)
  phase : RotationPhase

variable {C : Crypto}

def EncryptionKey.new (id : KeyId) (kek : KekKeypair C) : EncryptionKey C := ⟨id, kek, .readOnly⟩

def EncryptionKey.isWrite (key : EncryptionKey C) : Bool :=
  match key.state with
  | .writeRead => true
  | .readOnly => false

namespace Keyring

def new (writeId : KeyId) (writeKek : KekKeypair C) : Keyring C :=
  ⟨[⟨writeId, writeKek, .writeRead⟩], .steady⟩

/-- The key that writes; an empty ring has none, and the source panics. -/
def writeKey (ring : Keyring C) : Option (EncryptionKey C) := ring.keys.head?

def find (ring : Keyring C) (id : KeyId) : Option (EncryptionKey C) :=
  ring.keys.find? fun k => k.id = id

/-- Put a new key behind the others, for reading only. -/
def prepare (ring : Keyring C) (id : KeyId) (kek : KekKeypair C) :
    Except KeyringError Unit × Keyring C :=
  if ring.phase ≠ .steady then (.error .wrongPhase, ring)
  else if (ring.find id).isSome then (.error .duplicateKeyId, ring)
  else (.ok (), ⟨ring.keys ++ [EncryptionKey.new id kek], .prepared⟩)

/-- Make the prepared key the one that writes; `none` where the source panics. -/
def rotate (ring : Keyring C) : Option (Except KeyringError KeyId × Keyring C) :=
  if ring.phase ≠ .prepared then some (.error .nothingToRotate, ring)
  else ring.keys.getLast?.map fun prepared =>
    (.ok prepared.id,
      ⟨{ prepared with state := .writeRead } ::
        ring.keys.dropLast.map fun key => { key with state := .readOnly }, .rotated⟩)

/-- Drop the keys that only read. -/
def prune (ring : Keyring C) : Except KeyringError (List KeyId) × Keyring C :=
  if ring.phase ≠ .rotated then (.error .wrongPhase, ring)
  else
    (.ok ((ring.keys.filter fun key => !key.isWrite).map EncryptionKey.id),
      ⟨ring.keys.filter EncryptionKey.isWrite, .steady⟩)

/-- Prepare a key and make it the one that writes. -/
def rotateKeys (ring : Keyring C) (id : KeyId) (kek : KekKeypair C) :
    Option (Except KeyringError Unit × Keyring C) :=
  match ring.prepare id kek with
  | (.error e, ring) => some (.error e, ring)
  | (.ok (), ring) =>
    match ring.rotate with
    | none => none
    | some (.error e, ring) => some (.error e, ring)
    | some (.ok _, ring) => some (.ok (), ring)

/-! ## The shape of a ring -/

/-- One key writes and is the first; a second one is there exactly while a rotation is. -/
structure Shaped (ring : Keyring C) : Prop where
  nonempty : ring.keys ≠ []
  write : ∀ key ∈ ring.keys.head?, key.state = .writeRead
  readOnly : ∀ key ∈ ring.keys.tail, key.state = .readOnly
  nodup : (ring.keys.map EncryptionKey.id).Nodup
  length_keys : ring.keys.length = if ring.phase = .steady then 1 else 2

theorem shaped_one {key : EncryptionKey C} (h : key.state = .writeRead) :
    Shaped ⟨[key], .steady⟩ where
  nonempty := List.cons_ne_nil _ _
  write := by simpa using h
  readOnly := by simp
  nodup := List.nodup_singleton _
  length_keys := rfl

theorem shaped_two {write read : EncryptionKey C} {phase : RotationPhase}
    (hwrite : write.state = .writeRead) (hread : read.state = .readOnly)
    (hid : write.id ≠ read.id) (hphase : phase ≠ .steady) : Shaped ⟨[write, read], phase⟩ where
  nonempty := List.cons_ne_nil _ _
  write := by simpa using hwrite
  readOnly := by simpa using hread
  nodup := by simpa using hid
  length_keys := (if_neg hphase).symm

theorem Shaped.steady {ring : Keyring C} (h : ring.Shaped) (hphase : ring.phase = .steady) :
    ∃ key, ring = ⟨[key], .steady⟩ ∧ key.state = .writeRead := by
  obtain ⟨keys, phase⟩ := ring
  have hphase : phase = .steady := hphase
  subst hphase
  obtain ⟨key, rfl⟩ := List.length_eq_one_iff.mp h.length_keys
  exact ⟨key, rfl, h.write key rfl⟩

theorem Shaped.rotating {ring : Keyring C} (h : ring.Shaped) (hphase : ring.phase ≠ .steady) :
    ∃ write read, ring = ⟨[write, read], ring.phase⟩ ∧ write.state = .writeRead ∧
      read.state = .readOnly ∧ write.id ≠ read.id := by
  obtain ⟨keys, phase⟩ := ring
  have hlen : keys.length = 2 := h.length_keys.trans (if_neg hphase)
  obtain ⟨write, read, rfl⟩ := List.length_eq_two.mp hlen
  exact ⟨write, read, rfl, h.write write rfl, h.readOnly read (List.mem_singleton_self _),
    by simpa using h.nodup⟩

theorem shaped_new (id : KeyId) (kek : KekKeypair C) : (new id kek).Shaped := shaped_one rfl

/-! ## What the operations do to a shaped ring -/

section

variable {ring : Keyring C}

theorem find_one (key : EncryptionKey C) (phase : RotationPhase) (id : KeyId) :
    (⟨[key], phase⟩ : Keyring C).find id = if key.id = id then some key else none := by
  unfold find
  by_cases h : key.id = id <;> simp [h]

theorem Shaped.prepare_cases (h : ring.Shaped) (id : KeyId) (kek : KekKeypair C) :
    (∃ e, ring.prepare id kek = (.error e, ring)) ∨
    ∃ write, ring = ⟨[write], .steady⟩ ∧ write.state = .writeRead ∧ write.id ≠ id ∧
      ring.prepare id kek = (.ok (), ⟨[write, ⟨id, kek, .readOnly⟩], .prepared⟩) := by
  unfold prepare
  by_cases hphase : ring.phase = .steady
  · obtain ⟨write, rfl, hwrite⟩ := h.steady hphase
    by_cases hid : write.id = id
    · exact Or.inl ⟨.duplicateKeyId, by simp [find_one, hid]⟩
    · exact Or.inr ⟨write, rfl, hwrite, hid, by simp [find_one, hid, EncryptionKey.new]⟩
  · exact Or.inl ⟨.wrongPhase, if_pos hphase⟩

theorem Shaped.rotate_cases (h : ring.Shaped) :
    (ring.phase ≠ .prepared ∧ ring.rotate = some (.error .nothingToRotate, ring)) ∨
    ∃ write read, ring = ⟨[write, read], .prepared⟩ ∧ write.id ≠ read.id ∧
      ring.rotate = some (.ok read.id,
        ⟨[{ read with state := .writeRead }, { write with state := .readOnly }], .rotated⟩) := by
  by_cases hphase : ring.phase = .prepared
  · obtain ⟨write, read, hring, -, -, hid⟩ := h.rotating (by simp [hphase])
    rw [hphase] at hring
    subst hring
    exact Or.inr ⟨write, read, rfl, hid, rfl⟩
  · exact Or.inl ⟨hphase, if_pos hphase⟩

theorem Shaped.prune_cases (h : ring.Shaped) :
    (∃ e, ring.prune = (.error e, ring)) ∨
    ∃ write read, ring = ⟨[write, read], .rotated⟩ ∧ write.state = .writeRead ∧
      ring.prune = (.ok [read.id], ⟨[write], .steady⟩) := by
  unfold prune
  by_cases hphase : ring.phase = .rotated
  · obtain ⟨write, read, hring, hwrite, hread, -⟩ := h.rotating (by simp [hphase])
    rw [hphase] at hring
    subst hring
    exact Or.inr ⟨write, read, rfl, hwrite, by simp [EncryptionKey.isWrite, hwrite, hread]⟩
  · exact Or.inl ⟨.wrongPhase, if_pos hphase⟩

theorem Shaped.rotateKeys_cases (h : ring.Shaped) (id : KeyId) (kek : KekKeypair C) :
    (∃ e, ring.rotateKeys id kek = some (.error e, ring)) ∨
    ∃ write, ring = ⟨[write], .steady⟩ ∧ write.id ≠ id ∧
      ring.rotateKeys id kek = some (.ok (),
        ⟨[⟨id, kek, .writeRead⟩, { write with state := .readOnly }], .rotated⟩) := by
  unfold rotateKeys
  rcases h.prepare_cases id kek with ⟨e, he⟩ | ⟨write, hring, -, hid, hok⟩
  · exact Or.inl ⟨e, by rw [he]⟩
  · refine Or.inr ⟨write, hring, hid, ?_⟩
    rw [hok]
    rfl

end

end Keyring

/-!
## Stored values

A stored value begins with how it was written: in the clear, or sealed to a key whose name comes
next.
-/

inductive ProviderError
  | unknownKey
  | envelope (e : EnvelopeError)
deriving DecidableEq

inductive TransformError
  | unknownPrefix
  | malformed
  | provider (e : ProviderError)
deriving DecidableEq

structure EncryptedObject where
  keyId : KeyId
  blob : Bytes

inductive WriteMode
  | encrypt
  | identity
deriving DecidableEq

def encPrefix : Bytes := Bytes.ofString "cave:enc:mlkem768:v1:"

def identityPrefix : Bytes := Bytes.ofString "cave:enc:identity:"

structure LocalKmsProvider (C : Crypto) where
  keyring : Keyring C

structure Transformer (C : Crypto) where
  provider : LocalKmsProvider C
  writeMode : WriteMode

variable {C : Crypto}

/-- Seal under the key that writes; `none` where there is none and the source panics. -/
def LocalKmsProvider.encryptWith (p : LocalKmsProvider C) (plaintext : Bytes)
    (r : SealRandomness) : Option (Except ProviderError EncryptedObject) :=
  p.keyring.writeKey.map fun write =>
    match sealBlob plaintext write.kek.public_ (Bytes.ofString write.id.asStr) r with
    | .error e => .error (.envelope e)
    | .ok blob => .ok ⟨write.id, blob⟩

def LocalKmsProvider.decrypt (p : LocalKmsProvider C) (obj : EncryptedObject) :
    Except ProviderError Bytes :=
  match p.keyring.find obj.keyId with
  | none => .error .unknownKey
  | some key =>
    match openBlob obj.blob key.kek (Bytes.ofString obj.keyId.asStr) with
    | .error e => .error (.envelope e)
    | .ok plaintext => .ok plaintext

/-- The bytes after a given start. -/
def stripPrefix (start stored : Bytes) : Option Bytes :=
  if start.isPrefixOf stored then some (stored.drop start.length) else none

namespace Transformer

/-- The stored form of a value; `none` where the source panics. -/
def toStorage (t : Transformer C) (plaintext : Bytes) (r : SealRandomness) :
    Option (Except TransformError Bytes) :=
  match t.writeMode with
  | .encrypt =>
    (t.provider.encryptWith plaintext r).map fun
    | .error e => .error (.provider e)
    | .ok obj => .ok (encPrefix ++ Bytes.ofString obj.keyId.asStr ++ [0x3A] ++ obj.blob)
  | .identity => some (.ok (identityPrefix ++ plaintext))

/-- The value that was stored. -/
def fromStorage (t : Transformer C) (stored : Bytes) : Except TransformError Bytes :=
  match stripPrefix encPrefix stored with
  | some rest =>
    match rest.idxOf? 0x3A with
    | none => .error .malformed
    | some delim =>
      match Bytes.toString? (rest.take delim) with
      | none => .error .malformed
      | some keyIdStr =>
        match KeyId.new keyIdStr with
        | .error _ => .error .malformed
        | .ok keyId =>
          match t.provider.decrypt ⟨keyId, rest.drop (delim + 1)⟩ with
          | .error e => .error (.provider e)
          | .ok plaintext => .ok plaintext
  | none =>
    match stripPrefix identityPrefix stored with
    | some plaintext => .ok plaintext
    | none => .error .unknownPrefix

end Transformer

/-! ## Reading a stored value back -/

theorem stripPrefix_append (start rest : Bytes) :
    stripPrefix start (start ++ rest) = some rest := by
  rw [stripPrefix, if_pos (List.isPrefixOf_iff_prefix.mpr (List.prefix_append _ _)),
    List.drop_left]

theorem stripPrefix_encPrefix_identity (rest : Bytes) :
    stripPrefix encPrefix (identityPrefix ++ rest) = none := by
  have htake : encPrefix.take 10 ≠ identityPrefix.take 10 := by decide
  have hlen : 10 ≤ identityPrefix.length := by decide
  refine if_neg fun h => htake ?_
  obtain ⟨t, ht⟩ := List.isPrefixOf_iff_prefix.mp h
  calc encPrefix.take 10 = (encPrefix ++ t).take 10 :=
        (List.take_append_of_le_length (by decide)).symm
    _ = identityPrefix.take 10 := by rw [ht, List.take_append_of_le_length hlen]

theorem KeyId.colon_notMem (id : KeyId) : 0x3A ∉ Bytes.ofString id.asStr := by
  intro hmem
  have hvalid := id.valid
  simp only [validKeyId, Bool.and_eq_true, List.all_eq_true] at hvalid
  exact absurd (hvalid.2 0x3A hmem) (by decide)

theorem KeyId.new_asStr (id : KeyId) : KeyId.new id.asStr = .ok id := by
  rw [KeyId.new, dif_pos id.valid]

theorem idxOf?_append_cons {α : Type} [BEq α] [LawfulBEq α] {a : α} {front rest : List α}
    (h : a ∉ front) : (front ++ a :: rest).idxOf? a = some front.length := by
  induction front with
  | nil => simp [List.idxOf?, List.findIdx?_cons]
  | cons b front ih =>
    have hb : b ≠ a := fun hba => h (hba ▸ List.mem_cons_self)
    have hfront : a ∉ front := fun hmem => h (List.mem_cons_of_mem _ hmem)
    simp [List.idxOf?, List.findIdx?_cons, hb] at ih ⊢
    exact ih hfront

namespace Transformer

theorem fromStorage_identity (t : Transformer C) (plaintext : Bytes) :
    t.fromStorage (identityPrefix ++ plaintext) = .ok plaintext := by
  rw [fromStorage, stripPrefix_encPrefix_identity]
  simp only [stripPrefix_append]

theorem fromStorage_encrypted (t : Transformer C) (id : KeyId) (blob : Bytes) :
    t.fromStorage (encPrefix ++ Bytes.ofString id.asStr ++ [0x3A] ++ blob) =
      match t.provider.decrypt ⟨id, blob⟩ with
      | .error e => .error (.provider e)
      | .ok plaintext => .ok plaintext := by
  have hdelim : (Bytes.ofString id.asStr ++ 0x3A :: blob).idxOf? 0x3A =
      some (Bytes.ofString id.asStr).length := idxOf?_append_cons id.colon_notMem
  have hblob : (Bytes.ofString id.asStr ++ 0x3A :: blob).drop
      ((Bytes.ofString id.asStr).length + 1) = blob := by
    rw [← List.drop_drop, List.drop_left, List.drop_one, List.tail_cons]
  rw [List.append_assoc, List.append_assoc, List.singleton_append, fromStorage,
    stripPrefix_append]
  simp only [hdelim, List.take_left, Bytes.toString?_ofString, KeyId.new_asStr, hblob]

theorem fromStorage_sealed (hC : C.Correct) {t : Transformer C} {write key : EncryptionKey C}
    {plaintext blob : Bytes} {r : SealRandomness}
    (hfind : t.provider.keyring.find write.id = some key)
    (hkek : key.kek = write.kek)
    (hblob : sealBlob plaintext write.kek.public_ (Bytes.ofString write.id.asStr) r = .ok blob) :
    t.fromStorage (encPrefix ++ Bytes.ofString write.id.asStr ++ [0x3A] ++ blob) =
      .ok plaintext := by
  have hopen := openBlob_sealBlob hC hblob
  rw [fromStorage_encrypted]
  simp only [LocalKmsProvider.decrypt, hfind, hkek, hopen]

end Transformer

end CaveHome.Secrets
