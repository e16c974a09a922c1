import Mathlib.Data.List.Infix
import OmniDrive.Backup.Object
import OmniDrive.Library.Tables
import OmniDrive.Storage.Records
import OmniDrive.Vault.KeyStore

/-!
# The metadata backup

A run of the metadata backup, statement by statement: the health of the database, the plaintext
snapshot and its encryption, the uploads to each provider with the latest object behind them, and
the counters for the next run. Other workers change the database between the statements.
-/

namespace OmniDrive

open Tables

namespace Backup

variable {P : Primitives}

/-- A row of `metadata_backups`. -/
structure MetadataBackupRecord where
  backupId : String
  createdAt : ℤ
  snapshotVersion : ℤ
  objectKey : String
  provider : String
  status : String
  lastError : Option String
  deriving DecidableEq, Repr

/-- The tables that a metadata snapshot is about. -/
structure MetadataDb (P : Primitives) where
  vault : VaultDb P := {}
  inodes : List InodeRecord := []
  systemConfig : String → Option String := fun _ => none
  metadataBackups : List MetadataBackupRecord := []

/-- A backup object: its header, and the snapshot under the key that seals it. -/
structure BackupObject (P : Primitives) where
  kdf : RootKdfParams
  key : P.Key
  snapshot : MetadataDb P

/-- The database, the temporary files and the objects of each provider. The files carry the clock
reading in their names. -/
structure BackupWorld (P : Primitives) where
  db : MetadataDb P := {}
  plaintext : ℤ → Option (MetadataDb P) := fun _ => none
  encrypted : ℤ → Option (BackupObject P) := fun _ => none
  latest : String → Option (BackupObject P) := fun _ => none
  snapshots : String → List (String × BackupObject P) := fun _ => []

/-! ## The guard of the latest pointer -/

structure SnapshotHealth where
  hasVaultState : Bool
  hasVaultConfig : Bool
  inodeCount : ℕ
  dekCount : ℕ
  deriving DecidableEq, Repr

def lastSnapshotInodeCountKey : String := "last_snapshot_inode_count"

def lastSnapshotDekCountKey : String := "last_snapshot_dek_count"

/-- `parse::<i64>`; the limits of the type are not modelled. -/
def parseI64 (s : String) : Option ℤ :=
  let (negative, digits) := match s.toList with
    | '-' :: digits => (true, digits)
    | '+' :: digits => (false, digits)
    | digits => (false, digits)
  if digits = [] ∨ ¬ digits.all Char.isDigit then none
  else
    let n : ℤ := Nat.ofDigitChars 10 digits 0
    some (if negative then -n else n)

/-- The counter that an earlier run has stored. -/
def readSnapshotCounter (configKey : String) (db : MetadataDb P) : Option ℤ :=
  (db.systemConfig configKey).bind parseI64

def latestPointerMayAdvance (health : SnapshotHealth) (previousInodeCount : Option ℤ)
    (previousDekCount : Option ℤ) : Bool :=
  if !health.hasVaultState || !health.hasVaultConfig then false
  else if health.inodeCount = 0 ∧ 0 < previousInodeCount.getD 0 then false
  else if health.dekCount = 0 ∧ 0 < previousDekCount.getD 0 then false
  else true

/-! ## Providers -/

/-- What a provider reports. -/
inductive UploaderError where
  | timeout (provider duration : String)
  | upload (provider operation details : String)
  | localObjectMissing (path : String)
  | io (message : String)
  deriving DecidableEq, Repr

/-- The text of an error. -/
def UploaderError.display : UploaderError → String
  | .timeout provider duration => "upload to " ++ provider ++ " timed out after " ++ duration
  | .upload provider operation details =>
    provider ++ " " ++ operation ++ " failed: " ++ details
  | .localObjectMissing path => "local upload object not found: " ++ path
  | .io message => "i/o error: " ++ message

/-- `to_ascii_lowercase().contains(text)`. -/
def containsIgnoringCase (s text : String) : Bool :=
  decide (text.toList <:+: s.toList.map Char.toLower)

/-- Whether another attempt may succeed. -/
def uploadErrorIsRetryable : UploaderError → Bool
  | .timeout _ _ => true
  | .upload _ _ details =>
    !containsIgnoringCase details "accessdenied" && !containsIgnoringCase details "403" &&
      !containsIgnoringCase details "401" && !containsIgnoringCase details "unauthorized"
  | _ => false

/-- A place that a backup is copied to, and the attempts made for a snapshot. -/
structure BackupTarget where
  providerName : String
  maxAttempts : ℕ
  deriving DecidableEq, Repr

/-- The local store fails for good at once. -/
def localTarget : BackupTarget := { providerName := "local-metadata-store", maxAttempts := 1 }

def uploaderTarget (providerName : String) : BackupTarget := { providerName, maxAttempts := 4 }

/-- The local store first, and then every uploader. -/
def backupTargets (hasLocalStore : Bool) (uploaders : List String) : List BackupTarget :=
  (if hasLocalStore then [localTarget] else []) ++ uploaders.map uploaderTarget

/-! ## The statements -/

/-- `db::record_metadata_backup_attempt`. -/
def recordMetadataBackupAttempt (row : MetadataBackupRecord) (db : MetadataDb P) :
    MetadataDb P :=
  { db with
    metadataBackups :=
      if db.metadataBackups.any (·.backupId = row.backupId) then
        updateWhere (·.backupId = row.backupId) (fun _ => row) db.metadataBackups
      else db.metadataBackups ++ [row] }

/-- `db::update_metadata_backup_status`. -/
def updateMetadataBackupStatus (backupId status : String) (lastError : Option String)
    (db : MetadataDb P) : MetadataDb P :=
  { db with
    metadataBackups := updateWhere (·.backupId = backupId)
      (fun row => { row with status, lastError }) db.metadataBackups }

/-- `db::set_system_config_value`. -/
def setSystemConfigValue (key value : String) (db : MetadataDb P) : MetadataDb P :=
  { db with systemConfig := Function.update db.systemConfig key (some value) }

namespace BackupWorld

def writeDb (f : MetadataDb P → MetadataDb P) (w : BackupWorld P) : BackupWorld P :=
  { w with db := f w.db }

def setPlaintext (stamp : ℤ) (file : Option (MetadataDb P)) (w : BackupWorld P) :
    BackupWorld P :=
  { w with plaintext := Function.update w.plaintext stamp file }

def setEncrypted (stamp : ℤ) (file : Option (BackupObject P)) (w : BackupWorld P) :
    BackupWorld P :=
  { w with encrypted := Function.update w.encrypted stamp file }

/-- Put an object under the latest key of a provider. -/
def putLatest (provider : String) (object : BackupObject P) (w : BackupWorld P) :
    BackupWorld P :=
  { w with latest := Function.update w.latest provider (some object) }

/-- Put an object under its own key. -/
def putSnapshot (provider key : String) (object : BackupObject P) (w : BackupWorld P) :
    BackupWorld P :=
  { w with snapshots :=
      Function.update w.snapshots provider (w.snapshots provider ++ [(key, object)]) }

end BackupWorld

/-! ## The run -/

/-- What a run has decided before the snapshot: the master key it was given, the health it has
read, whether the latest objects advance, and the clock reading in the names of its files. -/
structure BackupPlan (P : Primitives) where
  masterKey : P.Key
  health : SnapshotHealth
  advanceLatest : Bool
  stamp : ℤ

/-- The progress of the uploads. -/
structure UploadProgress where
  createdAt : ℤ
  successfulUploads : ℕ := 0
  deriving DecidableEq, Repr

def UploadProgress.snapshotKey (up : UploadProgress) : String :=
  "_omnidrive/system/metadata/snapshots/" ++ toString up.createdAt ++ ".db.enc"

def UploadProgress.backupId (up : UploadProgress) (target : BackupTarget) : String :=
  toString up.createdAt ++ "-" ++ target.providerName

/-- The row of an attempt; the size of the file is left out. -/
def UploadProgress.record (up : UploadProgress) (target : BackupTarget) : MetadataBackupRecord :=
  { backupId := up.backupId target
    createdAt := up.createdAt
    snapshotVersion := metadataBackupVersion.toNat
    objectKey := up.snapshotKey
    provider := target.providerName
    status := "UPLOADING"
    lastError := none }

abbrev BackupResult := Except DisasterRecoveryError Unit

/-- Where a run is, with its local variables. -/
inductive BackupPoint (P : Primitives) where
  /-- No run is in progress. -/
  | idle
  | vaultState (masterKey : P.Key)
  | vaultConfig (masterKey : P.Key) (hasVaultState : Bool)
  | inodeCount (masterKey : P.Key) (hasVaultState hasVaultConfig : Bool)
  | dekCount (masterKey : P.Key) (hasVaultState hasVaultConfig : Bool) (inodeCount : ℕ)
  | previousInodeCount (masterKey : P.Key) (health : SnapshotHealth)
  | previousDekCount (masterKey : P.Key) (health : SnapshotHealth)
      (previousInodeCount : Option ℤ)
  | clearFiles (plan : BackupPlan P)
  | vacuum (plan : BackupPlan P)
  | kdfParams (plan : BackupPlan P)
  | encrypt (plan : BackupPlan P) (kdf : RootKdfParams)
  | deletePlaintext (plan : BackupPlan P) (encrypted : BackupResult)
  /-- The snapshot was not created: the encrypted file is deleted. -/
  | giveUp (plan : BackupPlan P) (err : DisasterRecoveryError)
  | encryptedSize (plan : BackupPlan P)
  | recordAttempt (plan : BackupPlan P) (up : UploadProgress) (target : BackupTarget)
      (rest : List BackupTarget)
  | uploadSnapshot (plan : BackupPlan P) (up : UploadProgress) (target : BackupTarget)
      (rest : List BackupTarget) (attempt : ℕ)
  | uploadLatest (plan : BackupPlan P) (up : UploadProgress) (target : BackupTarget)
      (rest : List BackupTarget)
  /-- The target is done, with the text of its error if it has failed. -/
  | updateStatus (plan : BackupPlan P) (up : UploadProgress) (target : BackupTarget)
      (rest : List BackupTarget) (lastError : Option String)
  | deleteEncrypted (plan : BackupPlan P) (result : BackupResult)
  | writeInodeCount (plan : BackupPlan P)
  | writeDekCount (plan : BackupPlan P)
  | returned (result : BackupResult)

/-- No run is in progress. -/
def BackupPoint.isIdle : BackupPoint P → Bool
  | .idle | .returned _ => true
  | _ => false

/-- The run has its master key and has not read the salt. -/
def BackupPoint.awaitsKdf : BackupPoint P → Bool
  | .vaultState _ | .vaultConfig _ _ | .inodeCount _ _ _ | .dekCount _ _ _ _
  | .previousInodeCount _ _ | .previousDekCount _ _ _ | .clearFiles _ | .vacuum _
  | .kdfParams _ => true
  | _ => false

/-- How the outside answers a statement: the text with which the database or the file system
refuses it, the error of an upload, whether a failed statement has had its effect all the same,
and the clock in milliseconds. -/
structure Answer where
  refused : Option String := none
  upload : Option UploaderError := none
  effect : Bool := false
  clock : ℤ := 0
  deriving DecidableEq, Repr

/-- A run, the targets it was given and the world it works on. -/
structure BackupRun (P : Primitives) where
  world : BackupWorld P := {}
  targets : List BackupTarget := []
  point : BackupPoint P := .idle

/-- `u32::try_from`, naming the field on failure. -/
def u32Field (field : String) (value : ℤ) : Except DisasterRecoveryError ℕ :=
  if 0 ≤ value ∧ value < 2 ^ 32 then .ok value.toNat else .error (.invalidBackupFormat field)

/-- The parameters for the header of an object. -/
def headerKdfParams : Option VaultConfigRecord → Except DisasterRecoveryError RootKdfParams
  | none => .error (.invalidBackupFormat "vault_config missing")
  | some config => do
    let parameterSetVersion ← u32Field "parameter_set_version" config.parameterSetVersion
    let memoryCostKib ← u32Field "memory_cost_kib" config.memoryCostKib
    let timeCost ← u32Field "time_cost" config.timeCost
    let lanes ← u32Field "lanes" config.lanes
    pure { parameterSetVersion, salt := config.salt, memoryCostKib, timeCost, lanes }

/-- The object made of a snapshot; a longer salt does not fit the header. -/
def sealSnapshot (plan : BackupPlan P) (kdf : RootKdfParams) (snapshot : MetadataDb P) :
    Except DisasterRecoveryError (BackupObject P) :=
  if kdf.salt.length < 256 ^ 2 then
    .ok { kdf, key := deriveMetadataBackupKey plan.masterKey, snapshot }
  else .error (.invalidBackupFormat "salt too long")

/-- An object is made of its header, the derived key and the snapshot. -/
theorem eq_of_sealSnapshot {plan : BackupPlan P} {kdf : RootKdfParams} {snapshot : MetadataDb P}
    {object : BackupObject P} (h : sealSnapshot plan kdf snapshot = .ok object) :
    object = { kdf, key := deriveMetadataBackupKey plan.masterKey, snapshot } := by
  rw [sealSnapshot] at h
  split at h
  · cases h
    rfl
  · cases h

/-- The next target, or the end of the uploads. -/
def nextTarget (plan : BackupPlan P) (up : UploadProgress) : List BackupTarget → BackupPoint P
  | target :: rest => .recordAttempt plan up target rest
  | [] =>
    .deleteEncrypted plan (if up.successfulUploads = 0 then .error .noSuccessfulUploads else .ok ())

namespace BackupRun

/-- Go on at a point. -/
def go (s : BackupRun P) (point : BackupPoint P) : BackupRun P := { s with point }

/-- Change the world and go on at a point. -/
def put (s : BackupRun P) (world : BackupWorld P) (point : BackupPoint P) : BackupRun P :=
  { s with world, point }

/-- One statement of a run. -/
def step (a : Answer) (s : BackupRun P) : BackupRun P :=
  let w := s.world
  match s.point with
  | .idle | .returned _ => s
  | .vaultState masterKey => match a.refused with
    | some message => s.go (.returned (.error (.db message)))
    | none => s.go (.vaultConfig masterKey w.db.vault.vaultState.isSome)
  | .vaultConfig masterKey hasVaultState => match a.refused with
    | some message => s.go (.returned (.error (.db message)))
    | none => s.go (.inodeCount masterKey hasVaultState w.db.vault.vaultConfig.isSome)
  | .inodeCount masterKey hasVaultState hasVaultConfig => match a.refused with
    | some message => s.go (.returned (.error (.db message)))
    | none => s.go (.dekCount masterKey hasVaultState hasVaultConfig w.db.inodes.length)
  | .dekCount masterKey hasVaultState hasVaultConfig inodeCount => match a.refused with
    | some message => s.go (.returned (.error (.db message)))
    | none => s.go (.previousInodeCount masterKey
        { hasVaultState, hasVaultConfig, inodeCount, dekCount := w.db.vault.deks.length })
  | .previousInodeCount masterKey health => match a.refused with
    | some message => s.go (.returned (.error (.db message)))
    | none => s.go (.previousDekCount masterKey health
        (readSnapshotCounter lastSnapshotInodeCountKey w.db))
  | .previousDekCount masterKey health previousInodeCount => match a.refused with
    | some message => s.go (.returned (.error (.db message)))
    | none => s.go (.clearFiles
        { masterKey, health, stamp := a.clock
          advanceLatest := latestPointerMayAdvance health previousInodeCount
            (readSnapshotCounter lastSnapshotDekCountKey w.db) })
  | .clearFiles plan => match a.refused with
    | some message => s.go (.giveUp plan (.io message))
    | none => s.put ((w.setEncrypted plan.stamp none).setPlaintext plan.stamp none) (.vacuum plan)
  | .vacuum plan => match a.refused with
    | some message =>
      -- a snapshot that fails halfway leaves its file
      s.put (if a.effect then w.setPlaintext plan.stamp (some w.db) else w)
        (.giveUp plan (.db message))
    | none => s.put (w.setPlaintext plan.stamp (some w.db)) (.kdfParams plan)
  | .kdfParams plan => match a.refused with
    | some message => s.go (.giveUp plan (.db message))
    | none => match headerKdfParams w.db.vault.vaultConfig with
      | .error err => s.go (.giveUp plan err)
      | .ok kdf => s.go (.encrypt plan kdf)
  | .encrypt plan kdf => match a.refused, w.plaintext plan.stamp with
    | some message, _ => s.go (.deletePlaintext plan (.error (.io message)))
    | none, none => s.go (.deletePlaintext plan (.error (.io "file not found")))
    | none, some snapshot => match sealSnapshot plan kdf snapshot with
      | .error err => s.go (.deletePlaintext plan (.error err))
      | .ok object =>
        s.put (w.setEncrypted plan.stamp (some object)) (.deletePlaintext plan (.ok ()))
  | .deletePlaintext plan encrypted =>
    let w := if a.refused.isSome then w else w.setPlaintext plan.stamp none
    match encrypted, a.refused with
    | .error err, _ => s.put w (.giveUp plan err)
    | .ok (), some message => s.put w (.giveUp plan (.io message))
    | .ok (), none => s.put w (.encryptedSize plan)
  | .giveUp plan err =>
    s.put (if a.refused.isSome then w else w.setEncrypted plan.stamp none) (.returned (.error err))
  | .encryptedSize plan =>
    if s.targets = [] then s.go (.deleteEncrypted plan (.error .noConfiguredProviders))
    else match a.refused with
      | some message => s.go (.deleteEncrypted plan (.error (.io message)))
      | none => s.go (nextTarget plan { createdAt := a.clock } s.targets)
  | .recordAttempt plan up target rest => match a.refused with
    | some message => s.go (.deleteEncrypted plan (.error (.db message)))
    | none => s.put (w.writeDb (recordMetadataBackupAttempt (up.record target)))
        (.uploadSnapshot plan up target rest 1)
  | .uploadSnapshot plan up target rest attempt => match w.encrypted plan.stamp with
    | none => s.go (.updateStatus plan up target rest (some "i/o error: file not found"))
    | some object =>
      let stored := w.putSnapshot target.providerName up.snapshotKey object
      match a.upload with
      | none => s.put stored
          (if plan.advanceLatest then .uploadLatest plan up target rest
            else .updateStatus plan up target rest none)
      | some err => s.put (if a.effect then stored else w)
          (if attempt < target.maxAttempts ∧ uploadErrorIsRetryable err then
            .uploadSnapshot plan up target rest (attempt + 1)
          else .updateStatus plan up target rest (some err.display))
  | .uploadLatest plan up target rest => match w.encrypted plan.stamp with
    | none => s.go (.updateStatus plan up target rest
        (some "latest pointer update failed: i/o error: file not found"))
    | some object =>
      let stored := w.putLatest target.providerName object
      match a.upload with
      | none => s.put stored (.updateStatus plan up target rest none)
      | some err => s.put (if a.effect then stored else w)
          (.updateStatus plan up target rest
            (some ("latest pointer update failed: " ++ err.display)))
  | .updateStatus plan up target rest lastError => match a.refused with
    | some message => s.go (.deleteEncrypted plan (.error (.db message)))
    | none => match lastError with
      | none => s.put
          (w.writeDb (updateMetadataBackupStatus (up.backupId target) "COMPLETED" none))
          (nextTarget plan { up with successfulUploads := up.successfulUploads + 1 } rest)
      | some text => s.put
          (w.writeDb (updateMetadataBackupStatus (up.backupId target) "FAILED" (some text)))
          (nextTarget plan up rest)
  | .deleteEncrypted plan result =>
    s.put (if a.refused.isSome then w else w.setEncrypted plan.stamp none)
      (match result with
        | .ok () => if plan.advanceLatest then .writeInodeCount plan else .returned (.ok ())
        | .error err => .returned (.error err))
  | .writeInodeCount plan => match a.refused with
    | some message => s.go (.returned (.error (.db message)))
    | none => s.put (w.writeDb (setSystemConfigValue lastSnapshotInodeCountKey
        (toString plan.health.inodeCount))) (.writeDekCount plan)
  | .writeDekCount plan => match a.refused with
    | some message => s.go (.returned (.error (.db message)))
    | none => s.put (w.writeDb (setSystemConfigValue lastSnapshotDekCountKey
        (toString plan.health.dekCount))) (.returned (.ok ()))

/-- A run reads the tables of the vault and writes none of them. -/
theorem vault_step (answer : Answer) (s : BackupRun P) :
    (s.step answer).world.db.vault = s.world.db.vault := by
  obtain ⟨w, targets, point⟩ := s
  cases point with
  | _ =>
    rw [step]
    try dsimp only
    repeat' split
    all_goals rfl

/-- A run that has read the salt does not go back. -/
theorem awaitsKdf_of_step {answer : Answer} {s : BackupRun P}
    (h : (s.step answer).point.awaitsKdf = true) : s.point.awaitsKdf = true := by
  obtain ⟨w, targets, point⟩ := s
  cases point with
  | idle | returned result => exact h
  | encryptedSize plan | updateStatus plan up target rest lastError =>
    have hnext : ∀ (up : UploadProgress) (rest : List BackupTarget),
        (nextTarget plan up rest).awaitsKdf = false := by
      intro up rest
      cases rest <;> rfl
    rw [step] at h
    dsimp only at h
    repeat' split at h
    all_goals first | cases h | exact absurd ((hnext _ _).symm.trans h) (by decide)
  | encrypt | deletePlaintext | giveUp | recordAttempt | uploadSnapshot | uploadLatest
  | deleteEncrypted | writeInodeCount | writeDekCount =>
    rw [step] at h
    try dsimp only at h
    repeat' split at h
    all_goals cases h
  | _ => rfl

end BackupRun

end Backup

end OmniDrive
