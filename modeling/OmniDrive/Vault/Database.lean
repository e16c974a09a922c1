import OmniDrive.Crypto.Primitives
import OmniDrive.Library.StatementProgram
import OmniDrive.Library.Tables

/-!
# The vault's tables and the statements on them

The rows of `vault_state`, `vault_config`, `data_encryption_keys`, `dek_rewrap_queue` and the
identity tables that the key store reads and writes, with the queries of `vault_state.rs`,
`devices.rs`, `device_identity.rs`, `users.rs` and `oauth.rs`. Each query is one statement; the
KDF migration is one transaction. A statement that the database itself refuses is not modelled
as an outcome: stopping a program between two statements covers it.
-/

namespace OmniDrive

open StatementProgram Tables

/-- The four numbers of the `argon2_params` text. -/
structure Argon2Params where
  parameterSetVersion : ℕ
  memoryCostKib : ℕ
  timeCost : ℕ
  lanes : ℕ
  deriving DecidableEq, Repr

/-- The row of `vault_state`. -/
structure VaultRecord (P : Primitives) where
  masterKeySalt : Bytes
  argon2Params : Argon2Params
  vaultId : String
  vaultFormatVersion : ℤ := 1
  encryptedVaultKey : Option (Sized P.Wrapped) := none
  vaultKeyGeneration : Option ℤ := some 0
  legacyReadKey : Option P.Sealed := none

/-- The row of `vault_config`. -/
structure VaultConfigRecord where
  salt : Bytes
  parameterSetVersion : ℤ
  memoryCostKib : ℤ
  timeCost : ℤ
  lanes : ℤ
  deriving DecidableEq, Repr

/-- A row of `data_encryption_keys`. -/
structure WrappedDekRecord (P : Primitives) where
  dekId : ℤ
  inodeId : ℤ
  wrappedDek : Sized P.Wrapped
  keyVersion : ℤ
  vaultKeyGen : ℤ

inductive RewrapStatus where
  | pending
  | failed
  deriving DecidableEq, Repr

/-- A row of `dek_rewrap_queue`. -/
structure RewrapQueueItem where
  dekId : ℤ
  sourceVkGeneration : ℤ
  targetVkGeneration : ℤ
  status : RewrapStatus
  deriving DecidableEq, Repr

/-- The row of `local_device_identity`. -/
structure LocalDeviceIdentityRecord (P : Primitives) where
  deviceId : String
  deviceName : String := ""
  encryptedPrivateKey : Option P.Sealed := none
  publicKey : Option (Sized P.Key) := none
  encryptedKyberPrivateKey : Option P.Sealed := none
  kyberPublicKey : Option Bytes := none

/-- The hybrid wrap of a vault key: the ML-KEM ciphertext and the AES-KW ciphertext. -/
structure HybridBlob (P : Primitives) where
  kyberCt : Bytes
  wrapped : P.Wrapped

/-- A row of `devices`. -/
structure DeviceRecord (P : Primitives) where
  deviceId : String
  userId : String
  publicKey : Sized P.Key
  wrappedVaultKey : Option P.Wrapped := none
  vaultKeyGeneration : Option ℤ := none
  revokedAt : Option ℤ := none
  createdAt : ℤ := 0
  kyberPublicKey : Option Bytes := none
  deviceName : String := ""
  enrolledAt : Option ℤ := none
  wrappedVaultKeyKyber : Option (HybridBlob P) := none

/-- A row of `vault_members`; the role is stored as text. -/
structure VaultMemberRecord where
  userId : String
  vaultId : String
  joinedAt : ℤ := 0
  role : String := "member"
  invitedBy : Option String := none
  deriving DecidableEq, Repr

/-- A row of `users`. -/
structure UserRecord (P : Primitives) where
  userId : String
  displayName : String := ""
  email : Option String := none
  authProvider : String := "local"
  authSubject : Option String := none
  googleRefreshToken : Option String := none
  googleRefreshTokenCiphertext : Option P.Sealed := none
  createdAt : ℤ := 0

/-- The tables the key store works on. -/
structure VaultDb (P : Primitives) where
  vaultState : Option (VaultRecord P) := none
  vaultConfig : Option VaultConfigRecord := none
  deks : List (WrappedDekRecord P) := []
  /-- The largest `dek_id` ever assigned. -/
  dekSequence : ℤ := 0
  rewrapQueue : List RewrapQueueItem := []
  localDeviceIdentity : Option (LocalDeviceIdentityRecord P) := none
  devices : List (DeviceRecord P) := []
  vaultMembers : List VaultMemberRecord := []
  users : List (UserRecord P) := []

/-- The keys held in memory while the vault is unlocked. -/
structure UnlockedVaultKeys (P : Primitives) where
  masterKey : P.Key
  /-- Deterministic V1 vault key, used for V1 chunk reads. -/
  vaultKey : P.Key
  envelopeVaultKey : Option P.Key
  /-- Kept during lazy re-wrap, so that old DEKs can still be read. -/
  previousEnvelopeVaultKey : Option P.Key

/-- The database, the key slot in memory, the position on the tape of random draws and the
clock in seconds. -/
structure VaultWorld (P : Primitives) where
  db : VaultDb P
  inner : Option (UnlockedVaultKeys P)
  draws : ℕ
  now : ℤ := 0

/-- Errors of single queries. -/
inductive DbError where
  | rowNotFound
  | uniqueViolation
  | foreignKeyViolation
  | unavailable
  | invalidArgument (message : String)
  deriving DecidableEq, Repr

inductive VaultError where
  | locked
  | emptyPassphrase
  | db (err : DbError)
  | crypto (err : CryptoError)
  | invalidConfig (reason : String)
  deriving DecidableEq, Repr

variable {P : Primitives}

/-- A program of the key store. -/
abbrev VaultProg (P : Primitives) (α : Type) := Prog (VaultWorld P) VaultError α

/-- A read of the database. -/
def selectDb {α : Type} (f : VaultDb P → α) : VaultProg P α := Prog.query fun w => f w.db

/-- A write of the database. -/
def writeDb (f : VaultDb P → VaultDb P) : VaultProg P Unit :=
  Prog.exec fun w => { w with db := f w.db }

@[simp] theorem run_selectDb {α : Type} (f : VaultDb P → α) (w : VaultWorld P) :
    (selectDb f).run w = (.ok (f w.db), w) := rfl

@[simp] theorem run_writeDb (f : VaultDb P → VaultDb P) (w : VaultWorld P) :
    (writeDb f).run w = (.ok (), { w with db := f w.db }) := rfl

@[simp] theorem run_selectDb_bind {α β : Type} (f : VaultDb P → α) (k : α → VaultProg P β)
    (w : VaultWorld P) : (selectDb f >>= k).run w = (k (f w.db)).run w := rfl

@[simp] theorem run_writeDb_bind {β : Type} (f : VaultDb P → VaultDb P)
    (k : Unit → VaultProg P β) (w : VaultWorld P) :
    (writeDb f >>= k).run w = (k ()).run { w with db := f w.db } := rfl

/-! ## `vault_state.rs` -/

namespace Db

/-- Update the row of `vault_state`, if there is one. -/
def updateVaultState (f : VaultRecord P → VaultRecord P) (db : VaultDb P) : VaultDb P :=
  { db with vaultState := db.vaultState.map f }

def setVaultParams (salt : Bytes) (params : Argon2Params) (vaultId : String) : VaultProg P Unit :=
  writeDb fun db =>
    { db with vaultState := some <| match db.vaultState with
      | some v => { v with masterKeySalt := salt, argon2Params := params, vaultId }
      | none => { masterKeySalt := salt, argon2Params := params, vaultId } }

def getVaultParams : VaultProg P (Option (VaultRecord P)) := selectDb (·.vaultState)

def storeEncryptedVaultKey (encryptedVaultKey : P.Wrapped) (vaultKeyGeneration : ℤ) :
    VaultProg P Unit :=
  writeDb <| updateVaultState fun v =>
    { v with
      encryptedVaultKey := some (.exact encryptedVaultKey)
      vaultKeyGeneration := some vaultKeyGeneration
      vaultFormatVersion := 2 }

/-- The wrapped DEK of an inode with the highest key version. -/
def latestDek (inodeId : ℤ) (db : VaultDb P) : Option (WrappedDekRecord P) :=
  (orderBy (fun r => -r.keyVersion) (db.deks.filter (·.inodeId = inodeId))).head?

def getWrappedDek (inodeId : ℤ) : VaultProg P (Option (WrappedDekRecord P)) :=
  selectDb (latestDek inodeId)

/-- Add a row under the next automatic `dek_id`. -/
def appendDek (inodeId : ℤ) (wrappedDek : P.Wrapped) (keyVersion vaultKeyGen : ℤ)
    (db : VaultDb P) : VaultDb P :=
  { db with
    deks := db.deks ++ [{ dekId := db.dekSequence + 1, inodeId, wrappedDek := .exact wrappedDek,
                          keyVersion, vaultKeyGen }]
    dekSequence := db.dekSequence + 1 }

def insertWrappedDek (inodeId : ℤ) (wrappedDek : P.Wrapped) (keyVersion vaultKeyGen : ℤ) :
    VaultProg P ℤ :=
  Prog.execReturning
    (fun w => { w with db := appendDek inodeId wrappedDek keyVersion vaultKeyGen w.db })
    fun w => w.db.dekSequence + 1

def getWrappedDekById (dekId : ℤ) : VaultProg P (Option (WrappedDekRecord P)) :=
  selectDb fun db => db.deks.find? (·.dekId = dekId)

/-- One more than the largest key version of the inode, counting from one. -/
def nextKeyVersion (inodeId : ℤ) (db : VaultDb P) : ℤ :=
  (((db.deks.filter (·.inodeId = inodeId)).map (·.keyVersion)).max?).getD 0 + 1

def nextDekKeyVersion (inodeId : ℤ) : VaultProg P ℤ := selectDb (nextKeyVersion inodeId)

def getVaultConfig : VaultProg P (Option VaultConfigRecord) := selectDb (·.vaultConfig)

def setVaultConfig (config : VaultConfigRecord) : VaultProg P Unit :=
  writeDb fun db => { db with vaultConfig := some config }

def getAllWrappedDeks : VaultProg P (List (WrappedDekRecord P)) :=
  selectDb fun db => orderBy (·.dekId) db.deks

/-- Replace the blob and generation of one DEK. -/
def setWrappedDek (dekId : ℤ) (newWrappedDek : P.Wrapped) (newVaultKeyGen : ℤ)
    (db : VaultDb P) : VaultDb P :=
  { db with
    deks := updateWhere (·.dekId = dekId)
      (fun r => { r with wrappedDek := .exact newWrappedDek, vaultKeyGen := newVaultKeyGen })
      db.deks }

def updateWrappedDek (dekId : ℤ) (newWrappedDek : P.Wrapped) (newVaultKeyGen : ℤ) :
    VaultProg P Unit :=
  writeDb (setWrappedDek dekId newWrappedDek newVaultKeyGen)

def rotateVaultState (newSalt : Bytes) (newArgon2Params : Argon2Params)
    (newEncryptedVaultKey : P.Wrapped) (newVaultKeyGeneration : ℤ) : VaultProg P Unit :=
  writeDb <| updateVaultState fun v =>
    { v with
      masterKeySalt := newSalt
      argon2Params := newArgon2Params
      encryptedVaultKey := some (.exact newEncryptedVaultKey)
      vaultKeyGeneration := some newVaultKeyGeneration }

def rotateVaultKeyOnly (newEncryptedVaultKey : P.Wrapped) (newVaultKeyGeneration : ℤ) :
    VaultProg P Unit :=
  writeDb <| updateVaultState fun v =>
    { v with
      encryptedVaultKey := some (.exact newEncryptedVaultKey)
      vaultKeyGeneration := some newVaultKeyGeneration }

/-- The values the KDF migration writes. -/
structure KdfMigrationWrites (P : Primitives) where
  newSalt : Bytes
  newArgon2Params : Argon2Params
  newEncryptedVaultKey : P.Wrapped
  legacyReadKeyBlob : P.Sealed
  newEncryptedDevicePrivateKey : Option P.Sealed

def getLegacyReadKey : VaultProg P (Option P.Sealed) :=
  selectDb fun db => db.vaultState.bind (·.legacyReadKey)

/-- The writes of the KDF migration. -/
def applyKdfMigration (w : KdfMigrationWrites P) (db : VaultDb P) : VaultDb P :=
  { db with
    vaultConfig := db.vaultConfig.map fun _ =>
      { salt := w.newSalt
        parameterSetVersion := w.newArgon2Params.parameterSetVersion
        memoryCostKib := w.newArgon2Params.memoryCostKib
        timeCost := w.newArgon2Params.timeCost
        lanes := w.newArgon2Params.lanes }
    vaultState := db.vaultState.map fun v =>
      { v with
        masterKeySalt := w.newSalt
        argon2Params := w.newArgon2Params
        encryptedVaultKey := some (.exact w.newEncryptedVaultKey)
        legacyReadKey := some w.legacyReadKeyBlob }
    localDeviceIdentity := match w.newEncryptedDevicePrivateKey with
      | some blob => db.localDeviceIdentity.map fun d => { d with encryptedPrivateKey := some blob }
      | none => db.localDeviceIdentity }

/-- All writes of the KDF migration commit together. -/
def migrateKdfParamsTx (w : KdfMigrationWrites P) : VaultProg P Unit :=
  writeDb (applyKdfMigration w)

/-- Queue every DEK of an older generation, keeping items already queued. -/
def enqueueOlder (targetVkGeneration : ℤ) (db : VaultDb P) : VaultDb P :=
  { db with
    rewrapQueue := (db.deks.filter (·.vaultKeyGen < targetVkGeneration)).foldl
      (fun queue r => insertOrIgnore RewrapQueueItem.dekId
        { dekId := r.dekId, sourceVkGeneration := r.vaultKeyGen, targetVkGeneration,
          status := .pending } queue)
      db.rewrapQueue }

def enqueueDeksForRewrap (targetVkGeneration : ℤ) : VaultProg P ℕ :=
  Prog.execReturning (fun w => { w with db := enqueueOlder targetVkGeneration w.db })
    fun w => (enqueueOlder targetVkGeneration w.db).rewrapQueue.length - w.db.rewrapQueue.length

/-- The first `limit` pending items in the order of their DEKs. -/
def pendingItems (limit : ℤ) (db : VaultDb P) : List RewrapQueueItem :=
  Tables.limit limit (orderBy (·.dekId) (db.rewrapQueue.filter (·.status = .pending)))

/-- Fetch the current blob of each item, one query an item. -/
def fetchWrapped : List RewrapQueueItem →
    VaultProg P (List (RewrapQueueItem × Sized P.Wrapped))
  | [] => pure []
  | item :: rest => do
    let record ← getWrappedDekById item.dekId
    let record ← Prog.ofOption (.db .rowNotFound) record
    let tail ← fetchWrapped rest
    pure ((item, record.wrappedDek) :: tail)

def getPendingRewrapBatch (limit : ℤ) :
    VaultProg P (List (RewrapQueueItem × Sized P.Wrapped)) := do
  let items ← selectDb (pendingItems limit)
  fetchWrapped items

def completeRewrapItem (dekId : ℤ) : VaultProg P Unit :=
  writeDb fun db => { db with rewrapQueue := deleteWhere (·.dekId = dekId) db.rewrapQueue }

def failRewrapItem (dekId : ℤ) : VaultProg P Unit :=
  writeDb fun db =>
    { db with
      rewrapQueue := updateWhere (·.dekId = dekId) (fun i => { i with status := .failed })
        db.rewrapQueue }

/-- Total, pending and failed items. -/
def getRewrapStatus : VaultProg P (ℕ × ℕ × ℕ) := do
  let total ← selectDb (·.rewrapQueue.length)
  let pending ← selectDb fun db => (db.rewrapQueue.filter (·.status = .pending)).length
  let failed ← selectDb fun db => (db.rewrapQueue.filter (·.status = .failed)).length
  pure (total, pending, failed)

/-! ## Identity tables -/

def getLocalDeviceIdentity : VaultProg P (Option (LocalDeviceIdentityRecord P)) :=
  selectDb (·.localDeviceIdentity)

def storeDeviceKeypair (encryptedPrivateKey : P.Sealed) (publicKey : P.Key) : VaultProg P Unit :=
  writeDb fun db =>
    { db with
      localDeviceIdentity := db.localDeviceIdentity.map fun d =>
        { d with
          encryptedPrivateKey := some encryptedPrivateKey
          publicKey := some (.exact publicKey) } }

def storeKyberKeypair (encryptedKyberPrivateKey : P.Sealed) (kyberPublicKey : Bytes) :
    VaultProg P Unit :=
  writeDb fun db =>
    { db with
      localDeviceIdentity := db.localDeviceIdentity.map fun d =>
        { d with
          encryptedKyberPrivateKey := some encryptedKyberPrivateKey
          kyberPublicKey := some kyberPublicKey } }

/-- Update one row of `devices`. -/
def updateDevice (deviceId : String) (f : DeviceRecord P → DeviceRecord P) : VaultProg P Unit :=
  writeDb fun db => { db with devices := updateWhere (·.deviceId = deviceId) f db.devices }

/-- Store the public key of a device and mark the device as enrolled. -/
def setDevicePublicKey (deviceId : String) (publicKey : P.Key) : VaultProg P Unit :=
  Prog.exec fun w =>
    { w with
      db := { w.db with
        devices := updateWhere (·.deviceId = deviceId)
          (fun d => { d with publicKey := .exact publicKey, enrolledAt := some w.now })
          w.db.devices } }

def setDeviceKyberPublicKey (deviceId : String) (kyberPublicKey : Bytes) : VaultProg P Unit :=
  updateDevice deviceId fun d => { d with kyberPublicKey := some kyberPublicKey }

def setDeviceWrappedVaultKey (deviceId : String) (wrappedVaultKey : P.Wrapped)
    (vaultKeyGeneration : ℤ) : VaultProg P Unit :=
  updateDevice deviceId fun d =>
    { d with
      wrappedVaultKey := some wrappedVaultKey
      vaultKeyGeneration := some vaultKeyGeneration }

def getActiveDevicesForUser (userId : String) : VaultProg P (List (DeviceRecord P)) :=
  selectDb fun db => orderBy (·.createdAt) <| db.devices.filter fun d =>
    d.userId = userId && d.revokedAt.isNone && d.wrappedVaultKey.isSome

def countActiveDevices : VaultProg P ℕ :=
  selectDb fun db => (db.devices.filter (·.revokedAt.isNone)).length

def listVaultMembers (vaultId : String) : VaultProg P (List VaultMemberRecord) :=
  selectDb fun db => orderBy (·.joinedAt) (db.vaultMembers.filter (·.vaultId = vaultId))

/-- The plaintext tokens that no ciphertext has replaced. -/
def plaintextTokens (db : VaultDb P) : List (String × String) :=
  db.users.filterMap fun u =>
    if u.googleRefreshTokenCiphertext.isNone then
      u.googleRefreshToken.map fun token => (u.userId, token)
    else none

def usersWithPlaintextRefreshToken : VaultProg P (List (String × String)) :=
  selectDb plaintextTokens

/-- Update one row of `users`. -/
def updateUser (userId : String) (f : UserRecord P → UserRecord P) : VaultProg P Unit :=
  writeDb fun db => { db with users := updateWhere (·.userId = userId) f db.users }

def storeEncryptedRefreshToken (userId : String) (ciphertext : P.Sealed) : VaultProg P Unit :=
  updateUser userId fun u => { u with googleRefreshTokenCiphertext := some ciphertext }

def clearPlaintextRefreshToken (userId : String) : VaultProg P Unit :=
  updateUser userId fun u => { u with googleRefreshToken := none }

end Db

end OmniDrive
