import Mathlib.Algebra.Ring.Int.Defs
import Mathlib.Algebra.Ring.Nat
import Mathlib.Logic.Function.Basic

/-!
# The cryptographic primitives and the key hierarchy

The passphrase hash, the key derivation, the key wrap and the authenticated cipher come from
other packages and are parameters here, together with the tape of random draws. The key
hierarchy above them is the code of `crypto.rs`. The ideal laws collect what the key
management relies on: a wrap or a seal opens under its own key only, derivations do not
collide, and no draw repeats or equals a derived key.
-/

namespace OmniDrive

/-- The raw bytes of a column. -/
abbrev Bytes := List UInt8

/-- A byte string that a length check either converts to a value or leaves as other bytes. -/
inductive Sized (α : Type) where
  | exact (a : α)
  | other (bytes : Bytes)
  deriving DecidableEq, Repr

/-- The fixed-length conversion `try_into`. -/
def Sized.tryInto {α : Type} : Sized α → Option α
  | .exact a => some a
  | .other _ => none

@[simp] theorem Sized.tryInto_exact {α : Type} (a : α) : (Sized.exact a).tryInto = some a := rfl

@[simp] theorem Sized.tryInto_other {α : Type} (bytes : Bytes) :
    (Sized.other bytes : Sized α).tryInto = none := rfl

/-- The arguments of the root key derivation. -/
structure RootKdfParams where
  parameterSetVersion : ℕ
  salt : Bytes
  memoryCostKib : ℕ
  timeCost : ℕ
  lanes : ℕ
  deriving DecidableEq, Repr

/-- The primitives of other packages that the key code calls. -/
structure Primitives where
  /-- A 32-byte key. -/
  Key : Type
  /-- A 40-byte AES-KW ciphertext. -/
  Wrapped : Type
  /-- Nonce, ciphertext and tag of an AES-GCM encryption. -/
  Sealed : Type
  decidableKey : DecidableEq Key
  /-- Argon2id; it refuses some parameters. -/
  argon2 : String → RootKdfParams → Option Key
  /-- HKDF-Expand of one key under a label. -/
  hkdfExpand : Key → String → Key
  /-- HKDF-Extract without salt. -/
  hkdfExtract : Key → Key
  kwWrap : Key → Key → Wrapped
  kwUnwrap : Key → Wrapped → Option Key
  /-- AES-GCM under a key, with a drawn nonce and additional data. -/
  gcmSeal : Key → ℕ → String → Sized Key → Sealed
  gcmOpen : Key → String → Sealed → Option (Sized Key)
  /-- The all-zero key. -/
  zeroKey : Key
  x25519 : Key → Key → Key
  x25519Public : Key → Key
  /-- Encapsulation and decapsulation key of a drawn ML-KEM-768 key pair. -/
  mlKem768 : ℕ → Bytes × Bytes
  randomKey : ℕ → Key
  randomSalt : ℕ → Bytes

instance (P : Primitives) : DecidableEq P.Key := P.decidableKey

variable {P : Primitives}

def vaultKeyInfo : String := "vault-key-v1"

def kekV2Info : String := "kek-v2"

def legacyReadKeyInfo : String := "legacy-read-key-v1"

def oauthRefreshTokenInfo : String := "omnidrive-oauth-refresh-tokens-v1"

def identityKekInfo : String := "omnidrive-identity-kek-v1"

def vaultKeyWrapInfo : String := "vault-key-wrap-v1"

/-- The root keys that the key store uses. -/
structure RootKeys (P : Primitives) where
  masterKey : P.Key
  vaultKey : P.Key
  kek : P.Key

inductive CryptoError where
  | argon2
  | keyWrap
  | aead
  | chunkIdMismatch (expected actual : Bytes)
  deriving DecidableEq, Repr

def deriveRootKeys (P : Primitives) (passphrase : String) (params : RootKdfParams) :
    Option (RootKeys P) :=
  (P.argon2 passphrase params).map fun master =>
    { masterKey := master
      vaultKey := P.hkdfExpand master vaultKeyInfo
      kek := P.hkdfExpand master kekV2Info }

def deriveKek (masterKey : P.Key) : P.Key := P.hkdfExpand masterKey kekV2Info

def wrapKey (wrappingKey plaintextKey : P.Key) : P.Wrapped := P.kwWrap wrappingKey plaintextKey

def unwrapKey (wrappingKey : P.Key) (wrapped : P.Wrapped) : Except CryptoError P.Key :=
  match P.kwUnwrap wrappingKey wrapped with
  | some key => .ok key
  | none => .error .keyWrap

def deriveSubkey (master : P.Key) (info : String) : P.Key := P.hkdfExpand master info

/-- The root keys come from one master key. -/
theorem deriveRootKeys_eq_some {passphrase : String} {params : RootKdfParams} {r : RootKeys P} :
    deriveRootKeys P passphrase params = some r ↔
      ∃ master, P.argon2 passphrase params = some master ∧
        r = ⟨master, P.hkdfExpand master vaultKeyInfo, P.hkdfExpand master kekV2Info⟩ := by
  simp only [deriveRootKeys, Option.map_eq_some_iff]
  constructor <;> rintro ⟨master, h, heq⟩ <;> exact ⟨master, h, heq.symm⟩

/-- The KEK of the root keys is the one derived again from their master key. -/
theorem deriveRootKeys_kek {passphrase : String} {params : RootKdfParams} {r : RootKeys P}
    (h : deriveRootKeys P passphrase params = some r) : r.kek = deriveKek r.masterKey := by
  obtain ⟨master, -, rfl⟩ := deriveRootKeys_eq_some.mp h
  rfl

/-- What key management relies on when the primitives are idealised. -/
structure Primitives.Ideal (P : Primitives) : Prop where
  kwUnwrap_kwWrap : ∀ k m, P.kwUnwrap k (P.kwWrap k m) = some m
  kwUnwrap_other : ∀ {k k'} m, k ≠ k' → P.kwUnwrap k' (P.kwWrap k m) = none
  gcmOpen_gcmSeal : ∀ k n aad m, P.gcmOpen k aad (P.gcmSeal k n aad m) = some m
  gcmOpen_other : ∀ {k k'} n aad aad' m, k ≠ k' → P.gcmOpen k' aad' (P.gcmSeal k n aad m) = none
  argon2_inj : ∀ {p p' params params' k},
    P.argon2 p params = some k → P.argon2 p' params' = some k → p = p' ∧ params = params'
  hkdfExpand_inj : ∀ {k k' info info'},
    P.hkdfExpand k info = P.hkdfExpand k' info' → k = k' ∧ info = info'
  randomKey_inj : Function.Injective P.randomKey
  randomKey_ne_expand : ∀ n k info, P.randomKey n ≠ P.hkdfExpand k info
  randomSalt_inj : Function.Injective P.randomSalt

namespace Primitives.Ideal

variable (ideal : P.Ideal)
include ideal

/-- A wrap opens under its own key. -/
theorem unwrapKey_wrapKey (k m : P.Key) : unwrapKey k (wrapKey k m) = .ok m := by
  simp [unwrapKey, wrapKey, ideal.kwUnwrap_kwWrap]

/-- A wrap opens under no other key. -/
theorem unwrapKey_other {k k' : P.Key} (m : P.Key) (h : k ≠ k') :
    unwrapKey k' (wrapKey k m) = .error .keyWrap := by
  simp [unwrapKey, wrapKey, ideal.kwUnwrap_other m h]

/-- Opening a wrap is the same as having its key. -/
theorem unwrapKey_wrapKey_eq_ok {k k' m m' : P.Key} :
    unwrapKey k' (wrapKey k m) = .ok m' ↔ k = k' ∧ m = m' := by
  by_cases h : k = k'
  · subst h
    simp [ideal.unwrapKey_wrapKey]
  · simp [ideal.unwrapKey_other m h, h]

/-- Different passphrases or parameters give different KEKs. -/
theorem kek_inj {p p' : String} {params params' : RootKdfParams} {r r' : RootKeys P}
    (h : deriveRootKeys P p params = some r) (h' : deriveRootKeys P p' params' = some r')
    (hkek : r.kek = r'.kek) : p = p' ∧ params = params' := by
  obtain ⟨m, hm, rfl⟩ := deriveRootKeys_eq_some.mp h
  obtain ⟨m', hm', rfl⟩ := deriveRootKeys_eq_some.mp h'
  obtain ⟨rfl, -⟩ := ideal.hkdfExpand_inj hkek
  exact ideal.argon2_inj hm hm'

end Primitives.Ideal

end OmniDrive
