import OmniDrive.Library.ByteFields
import OmniDrive.Vault.Rotation

/-!
# Wrapping the vault key for a device

The wraps of `identity.rs` and `hybrid.rs`: one under an X25519 agreement, and one under the
agreement combined with an ML-KEM-768 encapsulation. The encapsulation and the key derivation
come from other packages and are parameters. Each wrap opens with the private keys of the device
it was made for.
-/

namespace OmniDrive

open ByteFields StatementProgram

variable {P : Primitives}

/-! ## `pqkem.rs` and `hybrid.rs` -/

/-- ML-KEM-768 and the key derivation of the hybrid wrap. -/
structure HybridPrimitives (P : Primitives) where
  /-- The ciphertext and the shared secret of a drawn encapsulation. -/
  encapsulate : Bytes → ℕ → Bytes × P.Key
  decapsulate : Bytes → Bytes → P.Key
  /-- HKDF of a salt, the two secrets that make the input key, and an info. -/
  hkdf : String → P.Key → P.Key → Bytes → P.Key

inductive PqKemError where
  | invalidEncapsKeyLen (n : ℕ)
  | invalidDecapsKeyLen (n : ℕ)
  | invalidCiphertextLen (n : ℕ)
  deriving DecidableEq, Repr

inductive HybridError where
  | pqKem (err : PqKemError)
  | crypto (err : CryptoError)
  | invalidBlobLen (n : ℕ)
  deriving DecidableEq, Repr

/-- What is bound into the transcript of a hybrid wrap. -/
structure HybridWrapContext where
  version : String
  vaultId : String
  deviceId : String

namespace Hybrid

variable (H : HybridPrimitives P)

/-- `ML_KEM_768_DECAPS_KEY_LEN`. -/
def mlKem768DecapsKeyLen : ℕ := 2400

/-- `ML_KEM_768_CIPHERTEXT_LEN`. -/
def mlKem768CiphertextLen : ℕ := 1088

/-- `WRAPPED_KEY_LEN`. -/
def wrappedKeyLen : ℕ := 40

def hybridWrapSalt : String := "omnidrive-hybrid-wrap-v1"

def hybridWrapVersion : String := "v3-hybrid"

/-- `HYBRID_WRAPPED_LEN`. -/
def hybridWrappedLen : ℕ := mlKem768CiphertextLen + wrappedKeyLen

def mlKemEncapsulate (theirEk : Bytes) (draw : ℕ) : Except PqKemError (Bytes × P.Key) :=
  if theirEk.length = Identity.mlKem768EncapsKeyLen then .ok (H.encapsulate theirEk draw)
  else .error (.invalidEncapsKeyLen theirEk.length)

def mlKemDecapsulate (myDk ct : Bytes) : Except PqKemError P.Key :=
  if myDk.length ≠ mlKem768DecapsKeyLen then .error (.invalidDecapsKeyLen myDk.length)
  else if ct.length ≠ mlKem768CiphertextLen then .error (.invalidCiphertextLen ct.length)
  else .ok (H.decapsulate myDk ct)

/-- A field of a transcript behind its length. -/
def appendField (info field : Bytes) : Bytes := info ++ toBe 4 field.length ++ field

def deriveHybridKek (x25519Ss mlkemSs : P.Key) (kyberCt theirEk : Bytes)
    (ctx : HybridWrapContext) : P.Key :=
  let info := appendField [] ctx.version.toUTF8.toList
  let info := appendField info ctx.vaultId.toUTF8.toList
  let info := appendField info ctx.deviceId.toUTF8.toList
  let info := appendField info kyberCt
  let info := appendField info theirEk
  H.hkdf hybridWrapSalt x25519Ss mlkemSs info

def hybridWrapVaultKey (x25519SharedSecret : P.Key) (theirKyberEncapsKey : Bytes)
    (vaultKey : P.Key) (ctx : HybridWrapContext) (draw : ℕ) : Except HybridError (HybridBlob P) :=
  match mlKemEncapsulate H theirKyberEncapsKey draw with
  | .error e => .error (.pqKem e)
  | .ok (kyberCt, mlkemSs) =>
    let kek := deriveHybridKek H x25519SharedSecret mlkemSs kyberCt theirKyberEncapsKey ctx
    .ok { kyberCt, wrapped := wrapKey kek vaultKey }

def hybridUnwrapVaultKey (x25519SharedSecret : P.Key) (myKyberDecapsKey theirKyberEncapsKey : Bytes)
    (wrappedBlob : HybridBlob P) (ctx : HybridWrapContext) : Except HybridError P.Key :=
  if wrappedBlob.kyberCt.length + wrappedKeyLen ≠ hybridWrappedLen then
    .error (.invalidBlobLen (wrappedBlob.kyberCt.length + wrappedKeyLen))
  else match mlKemDecapsulate H myKyberDecapsKey wrappedBlob.kyberCt with
    | .error e => .error (.pqKem e)
    | .ok mlkemSs =>
      let kek := deriveHybridKek H x25519SharedSecret mlkemSs wrappedBlob.kyberCt
        theirKyberEncapsKey ctx
      match unwrapKey kek wrappedBlob.wrapped with
      | .error e => .error (.crypto e)
      | .ok vaultKey => .ok vaultKey

end Hybrid

/-! ## `identity.rs` -/

namespace Identity

/-- The agreement on a shared secret, with both checks for low-order points. -/
def sharedSecret (myPrivateKey theirPublicKey : P.Key) : Except IdentityError P.Key :=
  if theirPublicKey = P.zeroKey then
    .error (.crypto "low-order X25519 public key rejected (all-zero point)")
  else if P.x25519 myPrivateKey theirPublicKey = P.zeroKey then
    .error (.crypto "ECDH produced all-zero shared secret: low-order point attack rejected")
  else .ok (P.x25519 myPrivateKey theirPublicKey)

def unwrapVaultKeyFromDevice (myPrivateKey theirPublicKey : P.Key) (wrappedVaultKey : P.Wrapped) :
    Except IdentityError P.Key := do
  let shared ← sharedSecret myPrivateKey theirPublicKey
  match unwrapKey (deriveWrappingKey shared) wrappedVaultKey with
  | .error _ => .error (.crypto "AES-KW unwrap")
  | .ok vaultKey => .ok vaultKey

def hybridWrapVaultKeyForDevice (H : HybridPrimitives P) (myPrivateKey theirPublicKey : P.Key)
    (theirKyberEncapsKey : Bytes) (vaultKey : P.Key) (vaultId deviceId : String) (draw : ℕ) :
    Except IdentityError (HybridBlob P) := do
  let shared ← sharedSecret myPrivateKey theirPublicKey
  match Hybrid.hybridWrapVaultKey H shared theirKyberEncapsKey vaultKey
    ⟨Hybrid.hybridWrapVersion, vaultId, deviceId⟩ draw with
  | .error _ => .error (.crypto "hybrid wrap")
  | .ok blob => .ok blob

def hybridUnwrapVaultKeyFromDevice (H : HybridPrimitives P) (myPrivateKey theirPublicKey : P.Key)
    (myKyberDecapsKey myKyberEncapsKey : Bytes) (wrappedBlob : HybridBlob P)
    (vaultId deviceId : String) : Except IdentityError P.Key := do
  let shared ← sharedSecret myPrivateKey theirPublicKey
  match Hybrid.hybridUnwrapVaultKey H shared myKyberDecapsKey myKyberEncapsKey wrappedBlob
    ⟨Hybrid.hybridWrapVersion, vaultId, deviceId⟩ with
  | .error _ => .error (.crypto "hybrid unwrap")
  | .ok vaultKey => .ok vaultKey

end Identity

/-! ## Round trips -/

/-- What a device relies on when it agrees on a secret. -/
structure Primitives.Agreement (P : Primitives) : Prop where
  x25519_comm : ∀ a b, P.x25519 a (P.x25519Public b) = P.x25519 b (P.x25519Public a)
  x25519Public_ne_zero : ∀ a, P.x25519Public a ≠ P.zeroKey

/-- What ML-KEM promises for the pairs that it draws. -/
structure HybridPrimitives.Ideal (H : HybridPrimitives P) : Prop where
  length_decapsKey : ∀ n, (P.mlKem768 n).2.length = Hybrid.mlKem768DecapsKeyLen
  length_ciphertext : ∀ ek n, (H.encapsulate ek n).1.length = Hybrid.mlKem768CiphertextLen
  decapsulate_encapsulate : ∀ pair n,
    H.decapsulate (P.mlKem768 pair).2 (H.encapsulate (P.mlKem768 pair).1 n).1 =
      (H.encapsulate (P.mlKem768 pair).1 n).2

section RoundTrips

variable {mine theirs vaultKey : P.Key}

/-- Both sides agree on the secret, or both refuse. -/
theorem Identity.sharedSecret_comm (agreement : P.Agreement) (mine theirs : P.Key) :
    Identity.sharedSecret mine (P.x25519Public theirs) =
      Identity.sharedSecret theirs (P.x25519Public mine) := by
  rw [Identity.sharedSecret, Identity.sharedSecret, if_neg (agreement.x25519Public_ne_zero _),
    if_neg (agreement.x25519Public_ne_zero _), agreement.x25519_comm]

/-- A wrap is made under the agreed secret. -/
theorem Identity.wrapVaultKeyForDevice_eq_ok {wrapped : P.Wrapped} :
    Identity.wrapVaultKeyForDevice mine theirs vaultKey = .ok wrapped ↔
      ∃ shared, Identity.sharedSecret mine theirs = .ok shared ∧
        wrapped = wrapKey (Identity.deriveWrappingKey shared) vaultKey := by
  unfold Identity.wrapVaultKeyForDevice Identity.sharedSecret
  by_cases hlow : theirs = P.zeroKey
  · simp [hlow]
  by_cases hzero : P.x25519 mine theirs = P.zeroKey
  · simp [hlow, hzero]
  · simp [hlow, hzero, eq_comm]

/-- A wrap opens with the private key of the device it was made for. -/
theorem Identity.unwrap_of_wrap (ideal : P.Ideal) (agreement : P.Agreement) {wrapped : P.Wrapped}
    (h : Identity.wrapVaultKeyForDevice mine (P.x25519Public theirs) vaultKey = .ok wrapped) :
    Identity.unwrapVaultKeyFromDevice theirs (P.x25519Public mine) wrapped = .ok vaultKey := by
  obtain ⟨shared, hshared, rfl⟩ := Identity.wrapVaultKeyForDevice_eq_ok.mp h
  rw [Identity.sharedSecret_comm agreement] at hshared
  rw [Identity.unwrapVaultKeyFromDevice, hshared, Prog.except_ok_bind,
    ideal.unwrapKey_wrapKey]

/-- A hybrid wrap opens with the private keys of the device it was made for. -/
theorem Identity.hybridUnwrap_of_hybridWrap {H : HybridPrimitives P} (ideal : P.Ideal)
    (agreement : P.Agreement) (kem : H.Ideal) {pair draw : ℕ} {vaultId deviceId : String}
    {blob : HybridBlob P}
    (h : Identity.hybridWrapVaultKeyForDevice H mine (P.x25519Public theirs) (P.mlKem768 pair).1
      vaultKey vaultId deviceId draw = .ok blob) :
    Identity.hybridUnwrapVaultKeyFromDevice H theirs (P.x25519Public mine) (P.mlKem768 pair).2
      (P.mlKem768 pair).1 blob vaultId deviceId = .ok vaultKey := by
  rw [Identity.hybridWrapVaultKeyForDevice, Identity.sharedSecret_comm agreement] at h
  rw [Identity.hybridUnwrapVaultKeyFromDevice]
  cases hshared : Identity.sharedSecret theirs (P.x25519Public mine) with
  | error e =>
    rw [hshared] at h
    cases h
  | ok shared =>
    rw [hshared, Prog.except_ok_bind, Hybrid.hybridWrapVaultKey, Hybrid.mlKemEncapsulate] at h
    by_cases hlen : (P.mlKem768 pair).1.length = Identity.mlKem768EncapsKeyLen
    · rw [if_pos hlen] at h
      cases h
      have hct := kem.length_ciphertext (P.mlKem768 pair).1 draw
      rw [Prog.except_ok_bind, Hybrid.hybridUnwrapVaultKey, if_neg (by simp [hct,
        Hybrid.hybridWrappedLen]), Hybrid.mlKemDecapsulate, if_neg (by simp [kem.length_decapsKey]),
        if_neg (by simp [hct]), kem.decapsulate_encapsulate]
      dsimp only
      rw [ideal.unwrapKey_wrapKey]
    · rw [if_neg hlen] at h
      cases h

end RoundTrips

end OmniDrive
