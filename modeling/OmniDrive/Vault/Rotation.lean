import OmniDrive.Vault.KeyStore

/-!
# Key rotation, lazy re-wrapping and the KDF migration

The operations of `vault.rs` that replace the vault key or the master key, with the parts of
`identity.rs` they call. Loops are recursions over the rows they were given; a logged and
ignored error is an inspected outcome.
-/

namespace OmniDrive

open StatementProgram

variable {P : Primitives}

/-! ## `identity.rs` -/

inductive IdentityError where
  | noDeviceIdentity
  | crypto (message : String)
  deriving DecidableEq, Repr

def IdentityError.display : IdentityError → String
  | .noDeviceIdentity => "no local device identity found"
  | .crypto message => "crypto error: " ++ message

namespace Identity

/-- A program that fails with identity errors. -/
abbrev IdentityProg (P : Primitives) (α : Type) := Prog (VaultWorld P) IdentityError α

def deriveIdentityKek (masterKey : P.Key) : P.Key := P.hkdfExpand masterKey identityKekInfo

/-- Seal under the identity KEK with the given nonce. -/
def encryptPrivateKey (kek : P.Key) (nonce : ℕ) (privateKey : P.Key) : P.Sealed :=
  P.gcmSeal kek nonce "" (.exact privateKey)

def decryptPrivateKey (kek : P.Key) (blob : P.Sealed) : Except IdentityError P.Key :=
  match P.gcmOpen kek "" blob with
  | none => .error (.crypto "AES-GCM decrypt")
  | some (.other _) => .error (.crypto "decrypted key is not 32 bytes")
  | some (.exact key) => .ok key

def sealSecretBlob (kek : P.Key) (nonce : ℕ) (plaintext : Bytes) : P.Sealed :=
  P.gcmSeal kek nonce "" (.other plaintext)

/-- A read of the local identity; none is an error. -/
def localDevice : IdentityProg P (LocalDeviceIdentityRecord P) := do
  let device ← Prog.query fun w : VaultWorld P => w.db.localDeviceIdentity
  Prog.ofOption .noDeviceIdentity device

/-- The next draw of the tape. -/
def drawIndex : IdentityProg P ℕ :=
  Prog.execReturning (fun w => { w with draws := w.draws + 1 }) (·.draws)

def getDevicePrivateKey (masterKey : P.Key) : IdentityProg P P.Key := do
  let device ← localDevice
  let encrypted ← Prog.ofOption (.crypto "no encrypted private key stored")
    device.encryptedPrivateKey
  Prog.ofExcept (decryptPrivateKey (deriveIdentityKek masterKey) encrypted)

/-- Open with the KEK of the old master key and seal under the KEK of the new one. -/
def resealLocalDevicePrivateKey (oldMaster newMaster : P.Key) (nonce : ℕ)
    (currentBlob : P.Sealed) : Except IdentityError P.Sealed := do
  let privateKey ← decryptPrivateKey (deriveIdentityKek oldMaster) currentBlob
  pure (encryptPrivateKey (deriveIdentityKek newMaster) nonce privateKey)

def deriveWrappingKey (sharedSecret : P.Key) : P.Key :=
  P.hkdfExpand (P.hkdfExtract sharedSecret) vaultKeyWrapInfo

def wrapVaultKeyForDevice (myPrivateKey theirPublicKey vaultKey : P.Key) :
    Except IdentityError P.Wrapped :=
  if theirPublicKey = P.zeroKey then
    .error (.crypto "low-order X25519 public key rejected (all-zero point)")
  else
    let shared := P.x25519 myPrivateKey theirPublicKey
    if shared = P.zeroKey then
      .error (.crypto "ECDH produced all-zero shared secret: low-order point attack rejected")
    else .ok (wrapKey (deriveWrappingKey shared) vaultKey)

/-- Raise a statement of the key store to identity errors; it has none of its own. -/
def raiseStmt {α : Type} (p : VaultProg P α) : IdentityProg P α :=
  p.mapError fun _ => .noDeviceIdentity

def ensureDeviceKeypair (masterKey : P.Key) : IdentityProg P (Sized P.Key) := do
  let device ← localDevice
  match device.encryptedPrivateKey, device.publicKey with
  | some _, some (.exact pk) => pure (.exact pk)
  | _, _ =>
    let secret ← drawIndex
    let nonce ← drawIndex
    let publicBytes := P.x25519Public (P.randomKey secret)
    let encryptedPrivate :=
      encryptPrivateKey (deriveIdentityKek masterKey) nonce (P.randomKey secret)
    raiseStmt (Db.storeDeviceKeypair encryptedPrivate publicBytes)
    raiseStmt (Db.setDevicePublicKey device.deviceId publicBytes)
    pure (.exact publicBytes)

/-- `ML_KEM_768_ENCAPS_KEY_LEN`. -/
def mlKem768EncapsKeyLen : ℕ := 1184

def ensureDeviceKyberKeypair (masterKey : P.Key) : IdentityProg P Bytes := do
  let device ← localDevice
  match device.encryptedKyberPrivateKey, device.kyberPublicKey with
  | some _, some pubkey =>
    if pubkey.length = mlKem768EncapsKeyLen then pure pubkey else generate device
  | _, _ => generate device
where
  /-- Draw, seal and store a new key pair. -/
  generate (device : LocalDeviceIdentityRecord P) : IdentityProg P Bytes := do
    let pair ← drawIndex
    let nonce ← drawIndex
    let (encapsKey, decapsKey) := P.mlKem768 pair
    let blob := sealSecretBlob (deriveIdentityKek masterKey) nonce decapsKey
    raiseStmt (Db.storeKyberKeypair blob encapsKey)
    raiseStmt (Db.setDeviceKyberPublicKey device.deviceId encapsKey)
    pure encapsKey

end Identity

namespace VaultKeyStore

/-! ## Rotation to a new passphrase -/

structure RotationResult where
  newGeneration : ℤ
  deksRewrapped : ℕ
  deriving DecidableEq, Repr

/-- Re-wrap the blob of one DEK from the old vault key to the new one. -/
def rewrapOne (oldEnvelopeKey newVaultKey : P.Key) (record : WrappedDekRecord P) :
    Except VaultError (ℤ × P.Wrapped) :=
  match record.wrappedDek.tryInto with
  | none => .error (.invalidConfig "wrapped_dek has invalid length")
  | some oldWrapped =>
    match unwrapKey oldEnvelopeKey oldWrapped with
    | .error e => .error (.crypto e)
    | .ok plaintextDek => .ok (record.dekId, wrapKey newVaultKey plaintextDek)

/-- Re-wrap the blobs of all DEKs; the first that fails ends the loop. -/
def rewrapAll (oldEnvelopeKey newVaultKey : P.Key) (records : List (WrappedDekRecord P)) :
    Except VaultError (List (ℤ × P.Wrapped)) :=
  records.mapM (rewrapOne oldEnvelopeKey newVaultKey)

/-- Write the re-wrapped blobs, one statement a row. -/
def storeRewrapped (newGeneration : ℤ) : List (ℤ × P.Wrapped) → VaultProg P Unit
  | [] => pure ()
  | (dekId, newWrapped) :: rest => do
    Db.updateWrappedDek dekId newWrapped newGeneration
    storeRewrapped newGeneration rest

def rotateVaultKey (newPassphrase : String) : VaultProg P RotationResult := do
  if newPassphrase = "" then .fail .emptyPassphrase
  else
    let oldEnvelopeKey ← requireEnvelopeKey
    let oldGeneration ← currentVaultKeyGeneration
    let newSalt ← randomSalt
    let existingConfig ← Db.getVaultConfig
    let existingConfig ← Prog.ofOption (.invalidConfig "no vault_config found") existingConfig
    let newParams ← Prog.ofExcept (toRootKdfParams { existingConfig with salt := newSalt })
    let newRootKeys ← Prog.ofOption (.crypto .argon2) (deriveRootKeys P newPassphrase newParams)
    let newVaultKey ← generateRandomKey
    let newGeneration := oldGeneration + 1
    let wrappedNewVaultKey := wrapKey newRootKeys.kek newVaultKey
    let allDeks ← Db.getAllWrappedDeks
    let rewrapped ← Prog.ofExcept (rewrapAll oldEnvelopeKey newVaultKey allDeks)
    Db.rotateVaultState newSalt newParams.toArgon2Params wrappedNewVaultKey newGeneration
    Db.setVaultConfig newParams.toRecord
    storeRewrapped newGeneration rewrapped
    writeSlot (some (.withEnvelopeKey newRootKeys.masterKey newRootKeys.vaultKey newVaultKey))
    pure { newGeneration, deksRewrapped := allDeks.length }

/-! ## Rotation after a revocation -/

structure RevocationRotationResult where
  newGeneration : ℤ
  devicesRewrapped : ℕ
  deksEnqueued : ℕ
  deriving DecidableEq, Repr

/-- Wrap the new vault key for the devices of one member; failures are logged and skipped. -/
def rewrapDevices (ownerPrivate newVaultKey : P.Key) (newGeneration : ℤ) :
    List (DeviceRecord P) → VaultProg P ℕ
  | [] => pure 0
  | dev :: rest => do
    let done ← match dev.publicKey with
      | .exact pubKey =>
        if pubKey = P.zeroKey then pure 0
        else match Identity.wrapVaultKeyForDevice ownerPrivate pubKey newVaultKey with
          | .ok wrapped => do
            Db.setDeviceWrappedVaultKey dev.deviceId wrapped newGeneration
            pure 1
          | .error _ => pure 0
      | .other _ => pure 0
    let tail ← rewrapDevices ownerPrivate newVaultKey newGeneration rest
    pure (done + tail)

/-- Wrap the new vault key for every active device of every member. -/
def rewrapMembers (ownerPrivate newVaultKey : P.Key) (newGeneration : ℤ) :
    List VaultMemberRecord → VaultProg P ℕ
  | [] => pure 0
  | member :: rest => do
    let devices ← Db.getActiveDevicesForUser member.userId
    let done ← rewrapDevices ownerPrivate newVaultKey newGeneration devices
    let tail ← rewrapMembers ownerPrivate newVaultKey newGeneration rest
    pure (done + tail)

/-- The owner's device key, with its error as a configuration error. -/
def ownerPrivateKey (masterKey : P.Key) : VaultProg P P.Key :=
  (Identity.getDevicePrivateKey masterKey).mapError fun e =>
    .invalidConfig ("identity: " ++ e.display)

def rotateForRevocation : VaultProg P RevocationRotationResult := do
  let oldEnvelopeKey ← requireEnvelopeKey
  let masterKey ← requireMasterKey
  let oldGeneration ← currentVaultKeyGeneration
  let newVaultKey ← generateRandomKey
  let newGeneration := oldGeneration + 1
  let vaultParams ← Db.getVaultParams
  Db.rotateVaultKeyOnly (wrapKey (deriveKek masterKey) newVaultKey) newGeneration
  let ownerPrivate ← ownerPrivateKey masterKey
  let vaultId ← Prog.ofOption (.invalidConfig "no vault_id") (vaultParams.map (·.vaultId))
  let members ← Db.listVaultMembers vaultId
  let devicesRewrapped ← rewrapMembers ownerPrivate newVaultKey newGeneration members
  let deksEnqueued ← Db.enqueueDeksForRewrap newGeneration
  let vaultKey ← requireKey
  writeSlot (some (.withPreviousKey masterKey vaultKey newVaultKey oldEnvelopeKey))
  pure { newGeneration, devicesRewrapped, deksEnqueued }

/-! ## Lazy re-wrapping -/

/-- Re-wrap one queued DEK and take it off the queue. -/
def rewrapItem (oldEnvelopeKey newEnvelopeKey : P.Key) (newGeneration dekId : ℤ)
    (wrappedDekBytes : Sized P.Wrapped) : VaultProg P Unit := do
  let wrapped ← Prog.ofOption (.invalidConfig "wrapped_dek invalid length")
    wrappedDekBytes.tryInto
  let plaintextDek ← liftCrypto (unwrapKey oldEnvelopeKey wrapped)
  Db.updateWrappedDek dekId (wrapKey newEnvelopeKey plaintextDek) newGeneration
  Db.completeRewrapItem dekId

/-- Process the items of a batch; an item that fails is marked so and skipped. -/
def rewrapBatch (oldEnvelopeKey newEnvelopeKey : P.Key) (newGeneration : ℤ) :
    List (RewrapQueueItem × Sized P.Wrapped) → VaultProg P ℕ
  | [] => pure 0
  | (item, wrappedDekBytes) :: rest => do
    let result ← (rewrapItem oldEnvelopeKey newEnvelopeKey newGeneration item.dekId
      wrappedDekBytes).attempt
    let done ← match result with
      | .ok () => pure 1
      | .error (_ : VaultError) => do
        Db.failRewrapItem item.dekId
        pure 0
    let tail ← rewrapBatch oldEnvelopeKey newEnvelopeKey newGeneration rest
    pure (done + tail)

def processRewrapBatch (batchSize : ℤ) : VaultProg P ℕ := do
  let newEnvelopeKey ← requireEnvelopeKey
  match ← previousEnvelopeKey with
  | none => pure 0
  | some oldEnvelopeKey =>
    let batch ← Db.getPendingRewrapBatch batchSize
    if batch.isEmpty then
      clearPreviousEnvelopeKey
      pure 0
    else
      let newGeneration ← currentVaultKeyGeneration
      let processed ← rewrapBatch oldEnvelopeKey newEnvelopeKey newGeneration batch
      let (total, pending, _) ← Db.getRewrapStatus
      if total = 0 ∨ pending = 0 then
        clearPreviousEnvelopeKey
        pure processed
      else pure processed

/-! ## KDF migration and the maintenance after an unlock -/

inductive MigrationOutcome where
  | migrated (fromVersion toVersion : ℤ)
  | skipped
  | declined (reason : String)
  deriving DecidableEq, Repr

/-- The device key sealed again under the new master key, if there is one. -/
def resealDeviceKey (oldMaster newMaster : P.Key)
    (device : Option (LocalDeviceIdentityRecord P)) : VaultProg P (Option P.Sealed) := do
  match device.bind (·.encryptedPrivateKey) with
  | some oldBlob =>
    let nonce ← draw id
    match Identity.resealLocalDevicePrivateKey oldMaster newMaster nonce oldBlob with
    | .ok blob => pure (some blob)
    | .error _ => .fail (.invalidConfig "device key reseal failed")
  | none => pure none

def migrateKdfParamsIfNeeded (passphrase : String) : VaultProg P MigrationOutcome := do
  let cfg ← Db.getVaultConfig
  let cfg ← Prog.ofOption (.invalidConfig "no vault_config found") cfg
  if needsKdfMigration cfg.parameterSetVersion then
    let activeDevices ← Db.countActiveDevices
    if activeDevices > 1 then
      pure (.declined "multi-device vault: per-device KDF params deferred to α.C")
    else
      let oldMaster ← requireMasterKey
      let envelopeKey ← requireEnvelopeKey
      let oldVaultKey ← requireKey
      let vault ← Db.getVaultParams
      let vault ← Prog.ofOption (.invalidConfig "no vault_state found") vault
      let newSalt ← randomSalt
      let newParams := targetKdfParams newSalt
      let newRoot ← Prog.ofOption (.crypto .argon2) (deriveRootKeys P passphrase newParams)
      let legacyBlob ← sealLegacyReadKey envelopeKey oldVaultKey vault.vaultId
      let device ← Db.getLocalDeviceIdentity
      let newDeviceBlob ← resealDeviceKey oldMaster newRoot.masterKey device
      Db.migrateKdfParamsTx
        { newSalt
          newArgon2Params := newParams.toArgon2Params
          newEncryptedVaultKey := wrapKey newRoot.kek envelopeKey
          legacyReadKeyBlob := legacyBlob
          newEncryptedDevicePrivateKey := newDeviceBlob }
      writeSlot (some (.withEnvelopeKey newRoot.masterKey newRoot.vaultKey envelopeKey))
      pure (.migrated cfg.parameterSetVersion targetParameterSetVersion)
  else pure .skipped

/-- The maintenance after an unlock; its migration and key generation may fail and are then
retried at the next unlock. -/
def runPostUnlockMaintenance (passphrase : String) : VaultProg P Unit := do
  let _ ← ((migrateKdfParamsIfNeeded passphrase).attempt : VaultProg P (Except VaultError _))
  let masterKey ← requireMasterKey
  let _ ← ((Identity.ensureDeviceKeypair masterKey).attempt :
    VaultProg P (Except IdentityError _))
  let _ ← ((Identity.ensureDeviceKyberKeypair masterKey).attempt :
    VaultProg P (Except IdentityError _))
  pure ()

end VaultKeyStore

end OmniDrive
