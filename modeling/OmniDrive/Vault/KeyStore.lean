import OmniDrive.Vault.Database

/-!
# The key store

Unlocking and locking the vault, the accessors of the keys in memory, and the data encryption
keys, as `vault.rs` computes them. Every query, every access to the key slot and every random
draw is one statement.
-/

namespace OmniDrive

open StatementProgram

variable {P : Primitives}

namespace UnlockedVaultKeys

def withEnvelopeKey (masterKey vaultKey envelopeKey : P.Key) : UnlockedVaultKeys P :=
  { masterKey, vaultKey, envelopeVaultKey := some envelopeKey, previousEnvelopeVaultKey := none }

def withPreviousKey (masterKey vaultKey envelopeKey previousKey : P.Key) : UnlockedVaultKeys P :=
  { masterKey, vaultKey, envelopeVaultKey := some envelopeKey,
    previousEnvelopeVaultKey := some previousKey }

end UnlockedVaultKeys

structure UnlockResult where
  initialized : Bool
  unlocked : Bool
  deriving DecidableEq, Repr

/-! ## Draws, sealed secrets and the key slot -/

/-- Take the next draw of the random tape. -/
def draw {α : Type} (tape : ℕ → α) : VaultProg P α :=
  Prog.execReturning (fun w => { w with draws := w.draws + 1 }) fun w => tape w.draws

def generateRandomKey : VaultProg P P.Key := draw P.randomKey

def randomSalt : VaultProg P Bytes := draw P.randomSalt

/-- A pure step with its error as a vault error. -/
def liftCrypto {α : Type} (x : Except CryptoError α) : VaultProg P α :=
  Prog.ofExcept (x.mapError .crypto)

def encryptSecret (key : P.Key) (plaintext : Sized P.Key) (aad : String) : VaultProg P P.Sealed :=
  do
    let nonce ← draw id
    pure (P.gcmSeal key nonce aad plaintext)

def decryptSecret (key : P.Key) (blob : P.Sealed) (aad : String) :
    Except CryptoError (Sized P.Key) :=
  match P.gcmOpen key aad blob with
  | some plaintext => .ok plaintext
  | none => .error .aead

def sealLegacyReadKey (envelopeKey oldVaultKey : P.Key) (vaultId : String) :
    VaultProg P P.Sealed :=
  encryptSecret (deriveSubkey envelopeKey legacyReadKeyInfo) (.exact oldVaultKey) vaultId

def openLegacyReadKey (envelopeKey : P.Key) (blob : P.Sealed) (vaultId : String) :
    VaultProg P P.Key := do
  let plaintext ← liftCrypto
    (decryptSecret (deriveSubkey envelopeKey legacyReadKeyInfo) blob vaultId)
  Prog.ofOption (.invalidConfig "legacy_read_key has invalid length") plaintext.tryInto

/-- Read the key slot. -/
def readSlot : VaultProg P (Option (UnlockedVaultKeys P)) := Prog.query (·.inner)

/-- Overwrite the key slot. -/
def writeSlot (keys : Option (UnlockedVaultKeys P)) : VaultProg P Unit :=
  Prog.exec fun w => { w with inner := keys }

namespace VaultKeyStore

def lock : VaultProg P Unit := writeSlot none

def requireKey : VaultProg P P.Key := do
  let keys ← readSlot
  Prog.ofOption .locked (keys.map (·.vaultKey))

def requireMasterKey : VaultProg P P.Key := do
  let keys ← readSlot
  Prog.ofOption .locked (keys.map (·.masterKey))

def requireEnvelopeKey : VaultProg P P.Key := do
  let keys ← readSlot
  Prog.ofOption .locked (keys.bind (·.envelopeVaultKey))

def previousEnvelopeKey : VaultProg P (Option P.Key) :=
  Prog.query fun w => w.inner.bind (·.previousEnvelopeVaultKey)

def clearPreviousEnvelopeKey : VaultProg P Unit :=
  Prog.exec fun w =>
    { w with inner := w.inner.map fun keys => { keys with previousEnvelopeVaultKey := none } }

def sealOauthToken (userId token : String) : VaultProg P P.Sealed := do
  let evk ← requireEnvelopeKey
  encryptSecret (deriveSubkey evk oauthRefreshTokenInfo) (.other token.toUTF8.toList) userId

end VaultKeyStore

/-! ## KDF parameters -/

/-- `u32::try_from`, naming the field on failure. -/
def u32TryFrom (field : String) (value : ℤ) : Except VaultError ℕ :=
  if 0 ≤ value ∧ value < 2 ^ 32 then .ok value.toNat else .error (.invalidConfig field)

def toRootKdfParams (record : VaultConfigRecord) : Except VaultError RootKdfParams := do
  let parameterSetVersion ← u32TryFrom "parameter_set_version" record.parameterSetVersion
  let memoryCostKib ← u32TryFrom "memory_cost_kib" record.memoryCostKib
  let timeCost ← u32TryFrom "time_cost" record.timeCost
  let lanes ← u32TryFrom "lanes" record.lanes
  pure { parameterSetVersion, salt := record.salt, memoryCostKib, timeCost, lanes }

def targetParameterSetVersion : ℕ := 2

def targetMemoryCostKib : ℕ := 262144

def targetTimeCost : ℕ := 3

def targetLanes : ℕ := 1

def needsKdfMigration (currentParameterSetVersion : ℤ) : Bool :=
  currentParameterSetVersion < targetParameterSetVersion

def targetKdfParams (newSalt : Bytes) : RootKdfParams :=
  { parameterSetVersion := targetParameterSetVersion
    salt := newSalt
    memoryCostKib := targetMemoryCostKib
    timeCost := targetTimeCost
    lanes := targetLanes }

/-- The row of `vault_config` that stores the parameters. -/
def RootKdfParams.toRecord (params : RootKdfParams) : VaultConfigRecord :=
  { salt := params.salt
    parameterSetVersion := params.parameterSetVersion
    memoryCostKib := params.memoryCostKib
    timeCost := params.timeCost
    lanes := params.lanes }

/-- The `argon2_params` text of the parameters. -/
def RootKdfParams.toArgon2Params (params : RootKdfParams) : Argon2Params :=
  { parameterSetVersion := params.parameterSetVersion
    memoryCostKib := params.memoryCostKib
    timeCost := params.timeCost
    lanes := params.lanes }

def ensureVaultConfig : VaultProg P (RootKdfParams × Bool) := do
  match ← Db.getVaultConfig with
  | some existing =>
    let params ← Prog.ofExcept (toRootKdfParams existing)
    pure (params, false)
  | none =>
    let salt ← randomSalt
    Db.setVaultConfig (targetKdfParams salt).toRecord
    pure (targetKdfParams salt, true)

/-- Two lower-case hexadecimal digits. -/
def hexByte (byte : UInt8) : String :=
  String.ofList [Nat.digitChar (byte.toNat / 16), Nat.digitChar (byte.toNat % 16)]

def hexPrefix (bytes : Bytes) : String := String.join ((bytes.take 8).map hexByte)

def ensureLocalVaultParams (config : RootKdfParams) : VaultProg P Bool := do
  match ← Db.getVaultParams with
  | some _ => pure false
  | none =>
    let salt ← randomSalt
    Db.setVaultParams salt config.toArgon2Params ("local-vault-" ++ hexPrefix config.salt)
    pure true

/-! ## Unlocking -/

namespace VaultKeyStore

/-- Seal the remaining plaintext refresh tokens; a token that cannot be sealed is left. -/
def sealPlaintextTokens : List (String × String) → VaultProg P Unit
  | [] => pure ()
  | (uid, token) :: rest => do
    match ← (sealOauthToken uid token).attempt with
    | .ok cipher =>
      Db.storeEncryptedRefreshToken uid cipher
      Db.clearPlaintextRefreshToken uid
    | .error (_ : VaultError) => pure ()
    sealPlaintextTokens rest

/-- The keys of an unlock, from the stored envelope key or a fresh one. -/
def unlockKeys (rootKeys : RootKeys P) (vaultParams : Option (VaultRecord P)) :
    VaultProg P (UnlockedVaultKeys P) := do
  match vaultParams.bind (·.encryptedVaultKey) with
  | some (.exact wrapped) =>
    let envelopeKey ← liftCrypto (unwrapKey rootKeys.kek wrapped)
    pure (.withEnvelopeKey rootKeys.masterKey rootKeys.vaultKey envelopeKey)
  | _ =>
    -- a fresh vault and a V1 vault take the same steps and differ in their log line only
    let envelopeKey ← generateRandomKey
    Db.storeEncryptedVaultKey (wrapKey rootKeys.kek envelopeKey) 1
    pure (.withEnvelopeKey rootKeys.masterKey rootKeys.vaultKey envelopeKey)

def unlock (passphrase : String) : VaultProg P UnlockResult := do
  if passphrase = "" then .fail .emptyPassphrase
  else
    let (config, initialized) ← ensureVaultConfig
    let _ ← ensureLocalVaultParams config
    let rootKeys ← Prog.ofOption (.crypto .argon2) (deriveRootKeys P passphrase config)
    let vaultParams ← Db.getVaultParams
    let unlocked ← unlockKeys rootKeys vaultParams
    writeSlot (some unlocked)
    let pairs ← Db.usersWithPlaintextRefreshToken
    sealPlaintextTokens pairs
    pure { initialized, unlocked := true }

/-! ## Data encryption keys -/

def currentVaultKeyGeneration : VaultProg P ℤ := do
  let vault ← Db.getVaultParams
  pure ((vault.bind (·.vaultKeyGeneration)).getD 1)

/-- Unwrap a blob with the current envelope key, then with the previous one. -/
def unwrapWithFallback (envelopeKey : P.Key) (wrapped : P.Wrapped) : VaultProg P P.Key := do
  match unwrapKey envelopeKey wrapped with
  | .ok key => pure key
  | .error firstErr =>
    match ← previousEnvelopeKey with
    | some previous => liftCrypto (unwrapKey previous wrapped)
    | none => .fail (.crypto firstErr)

def getOrCreateDek (inodeId : ℤ) : VaultProg P (ℤ × P.Key) := do
  let envelopeKey ← requireEnvelopeKey
  match ← Db.getWrappedDek inodeId with
  | some record =>
    let wrapped ← Prog.ofOption (.invalidConfig "wrapped_dek has invalid length")
      record.wrappedDek.tryInto
    let dek ← unwrapWithFallback envelopeKey wrapped
    pure (record.dekId, dek)
  | none =>
    let dek ← generateRandomKey
    let vaultKeyGen ← currentVaultKeyGeneration
    let dekId ← Db.insertWrappedDek inodeId (wrapKey envelopeKey dek) 1 vaultKeyGen
    pure (dekId, dek)

def unwrapDekBytes (wrappedDek : Sized P.Wrapped) : VaultProg P P.Key := do
  let envelopeKey ← requireEnvelopeKey
  let wrapped ← Prog.ofOption (.invalidConfig "wrapped_dek has invalid length")
    wrappedDek.tryInto
  unwrapWithFallback envelopeKey wrapped

def createPackDek (creatingInodeId : ℤ) : VaultProg P (ℤ × P.Key) := do
  let envelopeKey ← requireEnvelopeKey
  let dek ← generateRandomKey
  let keyVersion ← Db.nextDekKeyVersion creatingInodeId
  let vaultKeyGen ← currentVaultKeyGeneration
  let dekId ← Db.insertWrappedDek creatingInodeId (wrapKey envelopeKey dek) keyVersion vaultKeyGen
  pure (dekId, dek)

def vaultKeyForV1Read : VaultProg P P.Key := do
  match ← Db.getLegacyReadKey with
  | some blob =>
    let envelopeKey ← requireEnvelopeKey
    let vault ← Db.getVaultParams
    let vault ← Prog.ofOption (.invalidConfig "no vault_state found") vault
    openLegacyReadKey envelopeKey blob vault.vaultId
  | none => requireKey

end VaultKeyStore

end OmniDrive
