import OmniDrive.Access.Handlers
import OmniDrive.Vault.DeviceWraps

/-!
# The handlers that wrap the vault key for a device

An admin accepts a device that waits, or adds a device of a member, which wraps the key at once
when the device has enrolled before. The two handlers of `api/vault.rs` read the keys in memory,
the device and the row of the vault in separate statements, and write each wrap in one more.
-/

namespace OmniDrive

open StatementProgram

variable {P : Primitives} {α : Type}

namespace Api

/-- The private key of the local device, for the handler of a request. -/
def ownerPrivateKey (masterKey : P.Key) : ApiProg P P.Key :=
  (onKeyStore (Identity.getDevicePrivateKey masterKey)).mapError fun e => .internal e.display

/-- Whether a device can be accepted, and its public key. -/
def checkAcceptable (target : DeviceRecord P) : Except ApiError P.Key :=
  if target.wrappedVaultKey.isSome then
    .error (.conflict "device already has a wrapped vault key")
  else if target.revokedAt.isSome then .error (.forbidden "device is revoked")
  else if target.enrolledAt.isNone then
    .error (.conflict ("device has not completed enrollment — unlock the vault on that device " ++
      "first so it can register a real public key"))
  else match target.publicKey with
    | .other _ =>
      .error (.badRequest "invalid_device_public_key" "device public key must be 32 bytes")
    | .exact memberPubkey =>
      if memberPubkey = P.zeroKey then
        .error (.badRequest "low_order_pubkey"
          ("device public key is a low-order X25519 point and cannot be used for key " ++
            "wrapping"))
      else .ok memberPubkey

structure AcceptResponse where
  deviceId : String
  userId : String
  deriving DecidableEq, Repr

/-- The hybrid wrap of an accepted device; a failure is logged and ignored. -/
def persistHybridWrap (fault : Bool) (deviceId : String) :
    Except IdentityError (HybridBlob P) → ApiProg P Unit
  | .ok wrappedKyber => logged (faulty fault (Db.setDeviceWrappedVaultKeyKyber deviceId wrappedKyber))
  | .error _ => pure ()

/-- The generation that is stored with the wrap is the number one. -/
def postAcceptDevice (H : HybridPrimitives P) (fault : Bool) (headers : HeaderMap)
    (targetDeviceId : String) (draw : ℕ) : ApiProg P AcceptResponse := do
  let caller ← Acl.requireRole headers .admin
  let masterKey ← (onKeyStore VaultKeyStore.requireMasterKey).mapError fun _ =>
    .locked "vault must be unlocked to accept devices"
  let envelopeKey ← (onKeyStore VaultKeyStore.requireEnvelopeKey).mapError fun _ =>
    .badRequest "no_envelope_key" "vault key not available"
  let ownerPrivate ← ownerPrivateKey masterKey
  let targetDevice ← query (Db.getDevice targetDeviceId)
  let targetDevice ← Prog.ofOption (.notFound "device" targetDeviceId) targetDevice
  let memberPubkey ← Prog.ofExcept (checkAcceptable targetDevice)
  let wrapped ← Prog.ofExcept
    ((Identity.wrapVaultKeyForDevice ownerPrivate memberPubkey envelopeKey).mapError fun e =>
      .internal ("key wrap failed: " ++ e.display))
  (onKeyStore (Db.setDeviceWrappedVaultKey targetDeviceId wrapped 1)).mapError fun _ =>
    .internal "set_device_wrapped_vault_key"
  match targetDevice.kyberPublicKey with
  | some kyberEk =>
    persistHybridWrap fault targetDeviceId
      (Identity.hybridWrapVaultKeyForDevice H ownerPrivate memberPubkey kyberEk envelopeKey
        caller.vaultId targetDeviceId draw)
  | none => pure ()
  pure { deviceId := targetDeviceId, userId := targetDevice.userId }

/-- A request to add a device; the public key is the decoded one, if it has 32 bytes. -/
structure AddDeviceRequest (P : Primitives) where
  userId : String
  deviceId : String
  deviceName : String
  publicKey : Option P.Key

/-- The statements of an addition whose failure is ignored. -/
structure AddFaults where
  lookup : Bool := false
  createDevice : Bool := false
  vaultParams : Bool := false

/-- A device that is revoked or has a wrap is not added again. A lookup that fails passes. -/
def checkAddable : Except DbError (Option (DeviceRecord P)) → Except ApiError Unit
  | .ok (some existing) =>
    if existing.revokedAt.isSome then .error (.forbidden "device is revoked")
    else if existing.wrappedVaultKey.isSome then
      .error (.conflict "device already has a wrapped vault key")
    else .ok ()
  | _ => .ok ()

/-- The generation for an automatic wrap; without an answer it is the number one. -/
def autoWrapGeneration : Except DbError (Option (VaultRecord P)) → ℤ
  | .ok (some v) => v.vaultKeyGeneration.getD 1
  | _ => 1

/-- The public key of the local device, if it can be used. -/
def usableKey (localDevice : LocalDeviceIdentityRecord P) : Option P.Key :=
  (localDevice.publicKey.bind Sized.tryInto).filter (· ≠ P.zeroKey)

/-- The statements of an automatic wrap up to the first that has no answer. -/
def autoWrap (faults : AddFaults) (targetDeviceId : String) (targetPublicKey : P.Key) :
    Prog (AccessWorld P) Unit (P.Wrapped × ℤ × P.Key) := do
  let masterKey ← (onKeyStore VaultKeyStore.requireMasterKey).mapError fun _ => ()
  let envelopeKey ← (onKeyStore VaultKeyStore.requireEnvelopeKey).mapError fun _ => ()
  let ownerPrivate ← (ownerPrivateKey masterKey).mapError fun _ => ()
  let target ← (Db.getDevice targetDeviceId).mapError fun _ => ()
  let target ← Prog.ofOption () target
  if target.revokedAt.isSome || target.enrolledAt.isNone then .fail ()
  else
    let wrapped ← Prog.ofExcept
      ((Identity.wrapVaultKeyForDevice ownerPrivate targetPublicKey envelopeKey).mapError
        fun _ => ())
    let params ← ((faulty faults.vaultParams (Prog.query (·.vault.db.vaultState))).attempt :
      Prog (AccessWorld P) Unit (Except DbError (Option (VaultRecord P))))
    let vkGen := autoWrapGeneration params
    (onKeyStore (Db.setDeviceWrappedVaultKey targetDeviceId wrapped vkGen)).mapError fun _ => ()
    let localDevice ← Prog.query (·.vault.db.localDeviceIdentity)
    let localDevice ← Prog.ofOption () localDevice
    let pubKeyBytes ← Prog.ofOption () (usableKey localDevice)
    pure (wrapped, vkGen, pubKeyBytes)

def tryAutoWrapVaultKey (faults : AddFaults) (targetDeviceId : String) (targetPublicKey : P.Key) :
    ApiProg P (Option (P.Wrapped × ℤ × P.Key)) := do
  let outcome ← ((autoWrap faults targetDeviceId targetPublicKey).attempt :
    ApiProg P (Except Unit (P.Wrapped × ℤ × P.Key)))
  pure outcome.toOption

structure AddDeviceResponse (P : Primitives) where
  status : String
  deviceId : String
  userId : String
  wrappedVaultKey : Option P.Wrapped
  vaultKeyGeneration : Option ℤ
  wrappingDevicePublicKey : Option P.Key

def postAddDevice (faults : AddFaults) (headers : HeaderMap) (req : AddDeviceRequest P) :
    ApiProg P (AddDeviceResponse P) := do
  let _ ← Acl.requireRole headers .admin
  let vaultId ← Prog.query AccessWorld.vaultId?
  let vaultId ← Prog.ofOption (.badRequest "vault_not_initialized" "vault not initialized") vaultId
  let member ← query (Db.getVaultMember req.userId vaultId)
  let _ ← Prog.ofOption
    (.forbidden "user is not a vault member — use /api/vault/join with an invite code") member
  let publicKey ← Prog.ofOption
    (.badRequest "invalid_public_key" "expected 32-byte X25519 public key (base64url)")
    req.publicKey
  let existing ← ((faulty faults.lookup (Db.getDevice req.deviceId)).attempt :
    ApiProg P (Except DbError (Option (DeviceRecord P))))
  Prog.ofExcept (checkAddable existing)
  logged (faulty faults.createDevice
    (Db.createDevice req.deviceId req.userId req.deviceName publicKey))
  let autoAccepted ← tryAutoWrapVaultKey faults req.deviceId publicKey
  pure { status := if autoAccepted.isSome then "accepted" else "pending_acceptance"
         deviceId := req.deviceId
         userId := req.userId
         wrappedVaultKey := autoAccepted.map (·.1)
         vaultKeyGeneration := autoAccepted.map (·.2.1)
         wrappingDevicePublicKey := autoAccepted.map (·.2.2) }

end Api

end OmniDrive
