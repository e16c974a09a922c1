import OmniDrive.Backup.Restore
import OmniDrive.Backup.Snapshot

/-!
# Fetching the roster

The fetch of the newest metadata snapshot and the additive merge of its `devices` and
`vault_members`. What SQLite reads in a snapshot file is left to the environment, and so is what
the providers list and deliver; the local file system does not fail.
-/

namespace OmniDrive

namespace Backup

open Tables

variable {P : Primitives}

/-! ## The newest snapshot -/

def i64Min : ℤ := -2 ^ 63

def i64Max : ℤ := 2 ^ 63 - 1

/-- The last part of a path, without the ending of a snapshot. -/
def snapshotStem (key : String) : Option String :=
  let name := (key.toList.reverse.takeWhile (· ≠ '/')).reverse
  (".db.enc".toList.isSuffixOf? name).map String.ofList

def parseCreatedAtFromSnapshotKey (key : String) : Option ℤ :=
  ((snapshotStem key).bind parseI64).filter fun n => i64Min ≤ n && n ≤ i64Max

/-- The first key with the largest time. -/
def newerSnapshotKey (best : Option (ℤ × String)) (key : String) : Option (ℤ × String) :=
  match parseCreatedAtFromSnapshotKey key with
  | none => best
  | some ts => if best.all (·.1 < ts) then some (ts, key) else best

/-- The keys that the local store and the providers list. -/
def MetadataBackupProviderManager.listedKeys (manager : MetadataBackupProviderManager) :
    List String :=
  (manager.localStore.toList.map (·.source) ++ manager.downloadProviders.map (·.source)).flatMap
    fun source => match source.listSnapshotKeys 32 with
      | .ok keys => keys
      | .error _ => []

def collectNewestSnapshotKey (manager : MetadataBackupProviderManager) : Option (ℤ × String) :=
  manager.listedKeys.foldl newerSnapshotKey none

def downloadFromProviders (key : String) :
    List MetadataBackupDownloadProvider → List String → Except DisasterRecoveryError Bytes
  | [], errors => .error (.downloadFailed errors)
  | provider :: providers, errors => match provider.object key with
    | .ok bytes => .ok bytes
    | .error err => downloadFromProviders key providers (errors ++ [err.display])

/-- A local store is the only one that is asked for the object. -/
def downloadSnapshotBytes (manager : MetadataBackupProviderManager) (key : String) :
    Except DisasterRecoveryError Bytes :=
  match manager.localStore with
  | some store => store.file key
  | none => downloadFromProviders key manager.downloadProviders []

def decryptMetadataBackupWithMaster (C : ChunkPrimitives P) (encoded : Bytes)
    (masterKey : P.Key) : Except DisasterRecoveryError Bytes :=
  match parseMetadataBackup encoded with
  | .error e => .error e
  | .ok parsed => parsed.open C (deriveMetadataBackupKey masterKey)

/-! ## The merge -/

/-- What SQLite reads in a snapshot file. -/
structure RosterTables (P : Primitives) where
  vaultId : Bytes → Except String (Option String)
  devices : Bytes → Except String (List (DeviceRecord P))
  vaultMembers : Bytes → Except String (List VaultMemberRecord)

/-- A query that fails gives no rows. -/
def unwrapOrDefault {R : Type} : Except String (List R) → List R
  | .ok rows => rows
  | .error _ => []

/-- The columns of `RestoredDevice`; the Kyber columns are not among them. -/
def restoredDevice (d : DeviceRecord P) : DeviceRecord P :=
  { d with kyberPublicKey := none, wrappedVaultKeyKyber := none }

/-- The rows that a snapshot file is merged for. -/
structure RosterRows (P : Primitives) where
  devices : List (DeviceRecord P)
  vaultMembers : List VaultMemberRecord

def RosterTables.rows (T : RosterTables P) (file : Bytes) : RosterRows P where
  devices := (unwrapOrDefault (T.devices file)).map restoredDevice
  vaultMembers := unwrapOrDefault (T.vaultMembers file)

structure RosterMergeSummary where
  devicesAdded : ℕ
  membersAdded : ℕ
  deriving DecidableEq, Repr

inductive RosterMergeError where
  | sqlite (message : String)
  | protocol (message : String)
  | db (err : DbError)
  deriving DecidableEq, Repr

def userExists (db : VaultDb P) (userId : String) : Bool := db.users.any (·.userId = userId)

/-- The foreign keys of `devices`. -/
def deviceRefused (db : VaultDb P) (d : DeviceRecord P) : Bool := !userExists db d.userId

/-- The foreign keys of `vault_members`. -/
def memberRefused (db : VaultDb P) (m : VaultMemberRecord) : Bool :=
  !(userExists db m.userId && m.invitedBy.all (userExists db))

/-- The primary key of `vault_members`. -/
def memberKey (m : VaultMemberRecord) : String × String := (m.userId, m.vaultId)

/-- The merge of the rows in one transaction. -/
def mergeRoster (rows : RosterRows P) (db : VaultDb P) :
    Except RosterMergeError (RosterMergeSummary × VaultDb P) :=
  match mergeRows DeviceRecord.deviceId (deviceRefused db) rows.devices db.devices with
  | none => .error (.db .foreignKeyViolation)
  | some (devices, devicesAdded) =>
    match mergeRows memberKey (memberRefused db) rows.vaultMembers db.vaultMembers with
    | none => .error (.db .foreignKeyViolation)
    | some (vaultMembers, membersAdded) =>
      .ok ({ devicesAdded, membersAdded }, { db with devices, vaultMembers })

def graftRosterAdditive (T : RosterTables P) (file : Bytes) (expectedVaultId : String)
    (db : VaultDb P) : Except RosterMergeError (RosterMergeSummary × VaultDb P) :=
  match T.vaultId file with
  | .error message => .error (.sqlite message)
  | .ok none => .error (.protocol "restored snapshot is missing vault_state row")
  | .ok (some vaultId) =>
    if vaultId ≠ expectedVaultId then
      .error (.protocol ("snapshot vault_id mismatch: expected '" ++ expectedVaultId ++
        "', got '" ++ vaultId ++ "'"))
    else mergeRoster (T.rows file) db

/-! ## The fetch -/

def lastAppliedRosterSnapshotAtKey : String := "last_applied_roster_snapshot_at"

def getLastAppliedRosterSnapshotAt (db : MetadataDb P) : Option ℤ :=
  (db.systemConfig lastAppliedRosterSnapshotAtKey).bind parseI64

def setLastAppliedRosterSnapshotAt (createdAt : ℤ) (db : MetadataDb P) : MetadataDb P :=
  setSystemConfigValue lastAppliedRosterSnapshotAtKey (toString createdAt) db

variable (C : ChunkPrimitives P) (S : SnapshotFiles) (T : RosterTables P)

/-- The plaintext of a snapshot, merged into the database if it holds a vault. -/
def applySnapshot (plaintext : Bytes) (localVaultId : String) (db : VaultDb P) :
    Option (RosterMergeSummary × VaultDb P) :=
  match writePlaintextSnapshotIfValid S plaintext with
  | (_, .error _) => none
  | (_, .ok false) => none
  | (file, .ok true) => match graftRosterAdditive T file localVaultId db with
    | .error _ => none
    | .ok merged => some merged

/-- The result of a fetch and the database; what fails behind the download is logged. -/
def runMetadataFetchNow (manager : MetadataBackupProviderManager) (masterKey : P.Key)
    (db : MetadataDb P) :
    Except DisasterRecoveryError (Option RosterMergeSummary) × MetadataDb P :=
  match db.vault.vaultState with
  | none => (.ok none, db)
  | some state => match collectNewestSnapshotKey manager with
    | none => (.ok none, db)
    | some (newestCreatedAt, newestKey) =>
      if newestCreatedAt ≤ (getLastAppliedRosterSnapshotAt db).getD i64Min then (.ok none, db)
      else match downloadSnapshotBytes manager newestKey with
        | .error err => (.error err, db)
        | .ok encoded => match decryptMetadataBackupWithMaster C encoded masterKey with
          | .error _ => (.ok none, db)
          | .ok plaintext => match applySnapshot S T plaintext state.vaultId db.vault with
            | none => (.ok none, db)
            | some (summary, vault) =>
              (.ok (some summary),
                setLastAppliedRosterSnapshotAt newestCreatedAt { db with vault })

end Backup

end OmniDrive
