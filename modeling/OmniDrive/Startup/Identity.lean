import OmniDrive.Access.Database
import OmniDrive.Backup.Restore

/-!
# The identity at startup

The part of a startup that sets up the vault, the identity of the device and its owner, and checks
that they belong together, statement by statement; the first unlock and the join of an existing
vault. The tables that the graft of a snapshot takes with it are here those of the identity, and
whether the database accepts it otherwise is left to the environment.
-/

namespace OmniDrive

open StatementProgram Tables

/-- A row of `audit_logs`. -/
structure AuditLogRecord where
  timestamp : ℤ
  actorUserId : Option String
  actorDeviceId : Option String
  action : String
  targetUserId : Option String
  targetDeviceId : Option String
  details : Option String
  vaultId : String
  deriving DecidableEq, Repr

/-- A row of `sync_policies`. -/
structure SyncPolicyRecord where
  pathPrefix : String
  requireHealthy : ℤ
  enableVersioning : ℤ
  policyType : String
  deriving DecidableEq, Repr

/-- The tables that a startup reads and writes. -/
structure StartupWorld (P : Primitives) where
  access : AccessWorld P
  auditLogs : List AuditLogRecord := []
  syncPolicies : List SyncPolicyRecord := []

variable {P : Primitives} {α ε : Type}

namespace StartupWorld

/-- The tables of the key store. -/
def db (w : StartupWorld P) : VaultDb P := w.access.vault.db

def withDb (w : StartupWorld P) (db : VaultDb P) : StartupWorld P :=
  { w with access := w.access.withDb db }

end StartupWorld

/-- What ends a startup. -/
inductive StartupError where
  | vault (err : VaultError)
  | db (err : DbError)
  /-- The panic of a device that does not belong to its vault. -/
  | consistency (message : String)

/-- A program of the startup. -/
abbrev StartupProg (P : Primitives) (α : Type) := Prog (StartupWorld P) StartupError α

/-- Run a program of the key store. -/
def onStartupVault (p : VaultProg P α) : StartupProg P α :=
  (p.zoom (fun w => w.access.vault) fun vault w =>
    { w with access := { w.access with vault } }).mapError .vault

/-- Run a program of the access tables. -/
def onStartupAccess (p : AccessProg P α) : StartupProg P α :=
  (p.zoom (·.access) fun access w => { w with access }).mapError .db

/-- What this machine and this start bring with them. -/
structure StartupEnv where
  /-- The name of the device in the settings or the environment. -/
  preferredDeviceName : Option String
  /-- The policy key of the default directory. -/
  defaultWatchDir : Option String
  newDeviceId : String
  /-- The user identifiers to be drawn. -/
  newUserId : ℕ → String

/-! ## The vault and the device -/

def bootstrapLocalVault : VaultProg P Bool := do
  let (config, initialized) ← ensureVaultConfig
  let created ← ensureLocalVaultParams config
  pure (initialized || created)

def policyOf (policyType pathPrefix : String) : SyncPolicyRecord :=
  let (requireHealthy, enableVersioning) := match policyType with
    | "PARANOIA" => (1, 1)
    | "STANDARD" => (0, 1)
    | "LOCAL" => (0, 1)
    | _ => (1, 1)
  { pathPrefix, requireHealthy, enableVersioning, policyType }

def setSyncPolicyTypeForPath (pathPrefix policyType : String) : StartupProg P Unit :=
  Prog.exec fun w =>
    { w with
      syncPolicies := upsert SyncPolicyRecord.pathPrefix
        (fun r => { policyOf policyType pathPrefix with pathPrefix := r.pathPrefix })
        (policyOf policyType pathPrefix) w.syncPolicies }

/-- The default directory gets a policy where there is none yet. -/
def bootstrapPolicies (env : StartupEnv) (bootstrapped : Bool) : StartupProg P Bool := do
  let policies ← Prog.query (·.syncPolicies)
  match env.defaultWatchDir with
  | some dir =>
    if policies = [] then do
      setSyncPolicyTypeForPath dir "LOCAL"
      pure true
    else pure bootstrapped
  | none => pure bootstrapped

/-- The vault is set up only by a start that found no database file. -/
def bootstrapDefaultLocalVault (env : StartupEnv) (databaseMissingOnStart justRestored : Bool) :
    StartupProg P Bool := do
  if databaseMissingOnStart && !justRestored then do
    let initialized ← onStartupVault bootstrapLocalVault
    bootstrapPolicies env initialized
  else bootstrapPolicies env false

/-- `get_local_device_identity`. -/
def readLocalDeviceIdentity : StartupProg P (Option (LocalDeviceIdentityRecord P)) :=
  Prog.query fun w => w.db.localDeviceIdentity

namespace Db

def upsertLocalDeviceIdentity (deviceId deviceName : String) : StartupProg P Unit :=
  Prog.exec fun w => w.withDb { w.db with
    localDeviceIdentity := some <| match w.db.localDeviceIdentity with
      | some identity => { identity with deviceId, deviceName }
      | none => { deviceId, deviceName } }

def updateLocalDeviceName (deviceName : String) : StartupProg P Unit :=
  Prog.exec fun w => w.withDb { w.db with
    localDeviceIdentity := w.db.localDeviceIdentity.map fun identity =>
      { identity with deviceName } }

end Db

def preferredDeviceName (env : StartupEnv) : Option String :=
  (env.preferredDeviceName.map Backup.trim).filter (· ≠ "")

/-- The identity of the device, under its identifier. -/
def ensureLocalDeviceIdentity (env : StartupEnv) : StartupProg P String := do
  match ← readLocalDeviceIdentity with
  | some existing => match preferredDeviceName env with
    | some deviceName =>
      if deviceName ≠ existing.deviceName then do
        Db.updateLocalDeviceName deviceName
        let refreshed ← readLocalDeviceIdentity
        pure (refreshed.getD existing).deviceId
      else pure existing.deviceId
    | none => pure existing.deviceId
  | none => do
    Db.upsertLocalDeviceIdentity env.newDeviceId
      ((preferredDeviceName env).getD "OmniDrive Device")
    let created ← readLocalDeviceIdentity
    let created ← Prog.ofOption (.db .rowNotFound) created
    pure created.deviceId

/-- The vault, until there is one under a name that stands for none. -/
def localVaultId (db : VaultDb P) : String :=
  (db.vaultState.map (·.vaultId)).getD "local-vault"

/-! ## The owner -/

def insertAuditLog (row : ℤ → AuditLogRecord) : StartupProg P Unit :=
  Prog.exec fun w => { w with auditLogs := w.auditLogs ++ [row w.access.now] }

/-- The owner, its device and its membership: three inserts, for a database without users. -/
def migrateSingleToMultiUser (env : StartupEnv) (vaultId : String) : StartupProg P Bool := do
  let userCount ← Prog.query fun w => w.db.users.length
  if 0 < userCount then pure false
  else
    match ← readLocalDeviceIdentity with
    | none => pure false
    | some device => do
      let ownerUserId := env.newUserId 0
      onStartupAccess (Db.createUser ownerUserId device.deviceName)
      onStartupAccess (Db.createDevice device.deviceId ownerUserId device.deviceName P.zeroKey)
      onStartupAccess (Db.addVaultMember ownerUserId vaultId "owner" none)
      insertAuditLog fun now =>
        { timestamp := now
          actorUserId := some ownerUserId
          actorDeviceId := some device.deviceId
          action := "migrate_single_to_multi"
          targetUserId := some ownerUserId
          targetDeviceId := some device.deviceId
          details := some "auto-migration from single-user vault"
          vaultId }
      pure true

/-! ## Legacy user identifiers -/

/-- `LIKE 'owner-%'`, which ignores the case of ASCII letters. -/
def isLegacyUserId (userId : String) : Bool :=
  "owner-".toList.isPrefixOf (Backup.toAsciiLowercase userId).toList

/-- A row that has the same account at the same identity provider. -/
def sameAuthSubject (u v : UserRecord P) : Bool :=
  u.authSubject.isSome && u.authProvider = v.authProvider && u.authSubject = v.authSubject

/-- The user identifier and the account are keys. -/
def copyRefused (newId oldId : String) (w : AccessWorld P) : Option DbError :=
  match w.vault.db.users.find? (·.userId = oldId) with
  | none => none
  | some u =>
    if w.hasUser newId || w.vault.db.users.any (sameAuthSubject u) then some .uniqueViolation
    else none

def copyUserRow (newId oldId : String) (w : AccessWorld P) : AccessWorld P :=
  match w.vault.db.users.find? (·.userId = oldId) with
  | none => w
  | some u => w.withDb { w.vault.db with
    users := w.vault.db.users ++
      [{ userId := newId
         displayName := u.displayName
         email := u.email
         authProvider := u.authProvider
         authSubject := u.authSubject
         createdAt := u.createdAt }] }

/-- `INSERT INTO users ... SELECT`. -/
def copyUser (newId oldId : String) : StartupProg P Unit :=
  onStartupAccess (insertRow (copyRefused newId oldId) (copyUserRow newId oldId))

def renameUserId (oldId newId userId : String) : String :=
  if userId = oldId then newId else userId

def updateDb (f : VaultDb P → VaultDb P) : StartupProg P Unit :=
  Prog.exec fun w => w.withDb (f w.db)

/-- The other references to a user, and its deletion. -/
def backfillOthers (newId oldId : String) : StartupProg P Unit := do
  let rename := renameUserId oldId newId
  updateDb fun db => { db with
    vaultMembers := db.vaultMembers.map fun m => { m with invitedBy := m.invitedBy.map rename } }
  Prog.exec fun w => { w with
    auditLogs := w.auditLogs.map fun a => { a with actorUserId := a.actorUserId.map rename } }
  Prog.exec fun w => { w with
    auditLogs := w.auditLogs.map fun a => { a with targetUserId := a.targetUserId.map rename } }
  Prog.exec fun w => { w with access := { w.access with
    sessions := w.access.sessions.map fun s => { s with userId := rename s.userId } } }
  Prog.exec fun w => { w with access := { w.access with
    inviteCodes := w.access.inviteCodes.map fun c => { c with createdBy := rename c.createdBy } } }
  updateDb fun db => { db with users := db.users.filter (·.userId ≠ oldId) }

/-- One legacy user: the copy, every reference, and the deletion. -/
def backfillUser (newId oldId : String) : StartupProg P Unit := do
  let rename := renameUserId oldId newId
  copyUser newId oldId
  updateDb fun db =>
    { db with devices := db.devices.map fun d => { d with userId := rename d.userId } }
  updateDb fun db =>
    { db with vaultMembers := db.vaultMembers.map fun m => { m with userId := rename m.userId } }
  backfillOthers newId oldId

/-- The legacy users with the identifiers drawn from a position on. -/
def backfillUsers (env : StartupEnv) : ℕ → List String → StartupProg P Unit
  | _, [] => pure ()
  | i, oldId :: rest => do
    backfillUser (env.newUserId i) oldId
    backfillUsers env (i + 1) rest

def legacyUserIds (db : VaultDb P) : List String :=
  (db.users.map (·.userId)).filter isLegacyUserId

/-- A pragma, which changes no table. -/
def pragma : StartupProg P Unit := Prog.exec id

def backfillUuidUserIds (env : StartupEnv) : StartupProg P ℕ := do
  let oldIds ← Prog.query fun w => legacyUserIds w.db
  if oldIds = [] then pure 0
  else do
    pragma
    backfillUsers env 1 oldIds
    pragma
    pure oldIds.length

/-! ## The device in the vault -/

def isOwnerOf (vaultId : String) (m : VaultMemberRecord) : Bool :=
  m.vaultId = vaultId && m.role = "owner"

/-- `INSERT OR IGNORE` of a device, under its foreign key. -/
def insertDeviceOrIgnore (deviceId userId deviceName : String) : StartupProg P Unit :=
  onStartupAccess <| insertRow
    (fun w =>
      if (w.device? deviceId).isSome || w.hasUser userId then none
      else some .foreignKeyViolation)
    fun w =>
      if (w.device? deviceId).isSome then w
      else w.withDb { w.vault.db with
        devices := w.vault.db.devices ++
          [{ deviceId, userId, deviceName, publicKey := .exact P.zeroKey
             createdAt := w.now }] }

def ensureLocalDeviceInVault (vaultId : String) : StartupProg P Bool := do
  match ← readLocalDeviceIdentity with
  | none => pure false
  | some device =>
    let registered ← Prog.query fun w => w.access.device? device.deviceId
    if registered.isSome then pure false
    else
      match ← Prog.query fun w => w.db.vaultMembers.find? (isOwnerOf vaultId) with
      | none => pure false
      | some owner => do
        insertDeviceOrIgnore device.deviceId owner.userId device.deviceName
        pure true

/-- Whether the device belongs to a member of the vault. -/
def isBound (vaultId deviceId : String) (db : VaultDb P) : Bool :=
  db.devices.any fun d => d.deviceId = deviceId &&
    db.vaultMembers.any fun m => m.userId = d.userId && m.vaultId = vaultId

/-- There is nothing to check while there is no vault. -/
def verifyVaultDeviceBinding (expectedVaultId deviceId : String) : StartupProg P Unit :=
  if expectedVaultId = "local-vault" then pure ()
  else do
    let bound ← Prog.query fun w => isBound expectedVaultId deviceId w.db
    if bound then pure ()
    else .fail (.consistency ("device '" ++ deviceId ++ "' is not bound to vault '" ++
      expectedVaultId ++ "' — possible vault_id / user_id mismatch after identity refactor"))

/-! ## A startup, an unlock and a join -/

/-- The vault, the device and their identifiers. -/
def openIdentity (env : StartupEnv) (databaseMissingOnStart : Bool) :
    StartupProg P (String × String) := do
  let _ ← bootstrapDefaultLocalVault env databaseMissingOnStart false
  let deviceId ← ensureLocalDeviceIdentity env
  let vaultId ← Prog.query fun w => localVaultId w.db
  pure (deviceId, vaultId)

/-- A step whose failure is logged. -/
def nonFatal (p : StartupProg P α) : StartupProg P Unit := do
  let _ ← (p.attempt : StartupProg P (Except StartupError α))
  pure ()

def startup (env : StartupEnv) (databaseMissingOnStart : Bool) : StartupProg P Unit := do
  let (deviceId, vaultId) ← openIdentity env databaseMissingOnStart
  nonFatal (migrateSingleToMultiUser env vaultId)
  nonFatal (backfillUuidUserIds env)
  nonFatal (ensureLocalDeviceInVault vaultId)
  verifyVaultDeviceBinding vaultId deviceId

/-- The rows of a snapshot that can stand in the tables of the identity. -/
def identityRowsFit (snapshot : VaultDb P) : Bool :=
  decide (snapshot.users.map (·.userId)).Nodup &&
    decide (snapshot.devices.map (·.deviceId)).Nodup &&
    snapshot.devices.all (fun d => snapshot.users.any (·.userId = d.userId)) &&
    snapshot.vaultMembers.all fun m => snapshot.users.any (·.userId = m.userId) &&
      m.invitedBy.all fun inviter => snapshot.users.any (·.userId = inviter)

/-- The tables of the identity after a graft; the salt of a vault that is there stays. -/
def graftIdentity (snapshot db : VaultDb P) : VaultDb P :=
  { db with
    vaultState := snapshot.vaultState.map fun remote => match db.vaultState with
      | some state =>
        { state with
          vaultId := remote.vaultId
          encryptedVaultKey := remote.encryptedVaultKey
          vaultKeyGeneration := remote.vaultKeyGeneration
          legacyReadKey := remote.legacyReadKey }
      | none => { remote with vaultFormatVersion := 1 }
    vaultConfig := snapshot.vaultConfig.or db.vaultConfig
    users := snapshot.users.map fun u => { u with googleRefreshToken := none }
    devices := snapshot.devices.map fun d =>
      { d with kyberPublicKey := none, wrappedVaultKeyKyber := none }
    vaultMembers := snapshot.vaultMembers }

/-- The device of this machine in the joined vault. -/
def registerInJoinedVault (vaultId : String) : StartupProg P Unit := do
  match ← readLocalDeviceIdentity with
  | none => pure ()
  | some _ => nonFatal (ensureLocalDeviceInVault vaultId)

/-- The graft is one transaction, and then the device is registered. -/
def joinExisting (snapshot : VaultDb P) (refused : Bool) : StartupProg P Unit := do
  let accepted ← Prog.execReturning
    (fun w =>
      if !refused && snapshot.vaultState.isSome && identityRowsFit snapshot then
        w.withDb (graftIdentity snapshot w.db)
      else w)
    fun _ => !refused && snapshot.vaultState.isSome && identityRowsFit snapshot
  if accepted then registerInJoinedVault (localVaultId snapshot)
  else .fail (.db .foreignKeyViolation)

end OmniDrive
