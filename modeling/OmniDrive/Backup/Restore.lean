import Mathlib.Data.Char
import Mathlib.Data.List.Infix
import Mathlib.Data.List.Lex
import Mathlib.Data.List.Sort
import OmniDrive.Backup.Object

/-!
# Restoring the metadata

The search for a snapshot that the passphrase opens, over the latest object and the newest
snapshots of each provider, and the restore of a vault from the first provider that has one. The
providers answer as they do; the local file system does not fail.
-/

namespace OmniDrive

namespace Backup

variable {P : Primitives}

structure VaultRestoreApplyReport where
  vaultId : String
  restoredInodes : ℤ
  restoredRevisions : ℤ
  deriving DecidableEq, Repr

/-- What SQLite and the graft make of a database file. -/
structure SnapshotFiles where
  stagingPath : String
  /-- The file after `init_db`, which creates what is missing. -/
  initDb : Bytes → Except String Bytes
  /-- Whether `get_vault_params` finds a row. -/
  hasVaultParams : Bytes → Except String Bool
  graftRestoredMetadataSnapshot : Bytes → Except String VaultRestoreApplyReport

/-! ## Providers -/

/-- The objects of a provider. -/
structure SnapshotSource where
  providerName : String
  listSnapshotKeys : ℕ → Except DisasterRecoveryError (List String)
  downloadBytes : String → Except DisasterRecoveryError Bytes

/-- The last keys in the order of their names, last first. -/
def newestSnapshotKeys (keys : List String) (maxKeys : ℕ) : List String :=
  (keys.insertionSort fun a b => b.toList ≤ a.toList).take maxKeys

def snapshotPrefix : String := "_omnidrive/system/metadata/snapshots/"

/-- A directory with backups: the names in the directory of the snapshots, and each file. -/
structure LocalMetadataBackupStore where
  snapshotNames : Except DisasterRecoveryError (List String)
  file : String → Except DisasterRecoveryError Bytes

def LocalMetadataBackupStore.source (store : LocalMetadataBackupStore) : SnapshotSource where
  providerName := "local-metadata-store"
  listSnapshotKeys maxKeys := store.snapshotNames.map fun names =>
    newestSnapshotKeys ((names.filter (·.endsWith ".db.enc")).map (snapshotPrefix ++ ·)) maxKeys
  downloadBytes := store.file

/-- A bucket: the keys under the prefix of the snapshots, and each object. -/
structure MetadataBackupDownloadProvider where
  providerName : String
  listing : Except DisasterRecoveryError (List String)
  object : String → Except DisasterRecoveryError Bytes

def MetadataBackupDownloadProvider.source (provider : MetadataBackupDownloadProvider) :
    SnapshotSource where
  providerName := provider.providerName
  listSnapshotKeys maxKeys := provider.listing.map (newestSnapshotKeys · maxKeys)
  downloadBytes := provider.object

structure MetadataBackupProviderManager where
  downloadProviders : List MetadataBackupDownloadProvider := []
  localStore : Option LocalMetadataBackupStore := none

/-- The sources that a restore looks at; a local store excludes the others. -/
def MetadataBackupProviderManager.sources (manager : MetadataBackupProviderManager) :
    List SnapshotSource :=
  match manager.localStore with
  | some store => [store.source]
  | none => manager.downloadProviders.map (·.source)

/-! ## The search -/

def latestKey : String := "_omnidrive/system/metadata/latest.db.enc"

def maxDecryptFailures : ℕ := 3

/-- The keys in the order of their first appearance. -/
def dedupObjectKeys (keys : List String) : List String :=
  keys.foldl (fun deduped key => if key ∈ deduped then deduped else deduped ++ [key]) []

/-- Write the plaintext to the output file and look for the vault in it. -/
def writePlaintextSnapshotIfValid (S : SnapshotFiles) (plaintext : Bytes) :
    Bytes × Except DisasterRecoveryError Bool :=
  match S.initDb plaintext with
  | .error message => (plaintext, .error (.db message))
  | .ok file => (file, (S.hasVaultParams file).mapError .db)

structure RestoreState (P : Primitives) where
  errors : List String := []
  cache : MetadataBackupKeyCache P := []
  decryptFailures : ℕ := 0
  /-- The output file. -/
  output : Option Bytes := none

def RestoreState.report (s : RestoreState P) (error : String) : RestoreState P :=
  { s with errors := s.errors ++ [error] }

inductive Verdict where
  | restored
  | next
  | capped
  | failed (err : DisasterRecoveryError)
  deriving DecidableEq

variable (C : ChunkPrimitives P) (S : SnapshotFiles) (passphrase : String)

def tryCandidate (source : SnapshotSource) (key : String) (s : RestoreState P) :
    Verdict × RestoreState P :=
  let label := source.providerName ++ " " ++ key ++ ": "
  match source.downloadBytes key with
  | .error err => (.next, s.report (label ++ err.display))
  | .ok encoded =>
    match decryptMetadataBackup C passphrase s.cache encoded with
    | (.error err, cache) =>
      let s := { s with cache }.report (label ++ err.display)
      if err = .backupDecryptFailed then
        let s := { s with decryptFailures := s.decryptFailures + 1 }
        (if maxDecryptFailures ≤ s.decryptFailures then .capped else .next, s)
      else (.next, s)
    | (.ok plaintext, cache) =>
      match writePlaintextSnapshotIfValid S plaintext with
      | (file, .error err) => (.failed err, { s with cache, output := some file })
      | (file, .ok true) => (.restored, { s with cache, output := some file })
      | (file, .ok false) =>
        (.next, { s with cache, output := some file }.report
          (label ++ "decrypted snapshot is missing vault_state row"))

def tryKeys (source : SnapshotSource) : List String → RestoreState P → Verdict × RestoreState P
  | [], s => (.next, s)
  | key :: keys, s =>
    match tryCandidate C S passphrase source key s with
    | (.next, s) => tryKeys source keys s
    | stopped => stopped

/-- The keys to look at: the latest object and the newest snapshots that are listed. -/
def candidateKeys (source : SnapshotSource) : List String :=
  dedupObjectKeys <| latestKey :: match source.listSnapshotKeys 32 with
    | .ok keys => keys
    | .error _ => []

def trySource (source : SnapshotSource) (s : RestoreState P) : Verdict × RestoreState P :=
  let s := match source.listSnapshotKeys 32 with
    | .ok _ => s
    | .error err => s.report (source.providerName ++ " snapshots: " ++ err.display)
  tryKeys C S passphrase source (candidateKeys source) s

def trySources : List SnapshotSource → RestoreState P → Verdict × RestoreState P
  | [], s => (.next, s)
  | source :: sources, s =>
    match trySource C S passphrase source s with
    | (.next, s) => trySources sources s
    | stopped => stopped

def finalizeRestoreError (errors : List String) (decryptFailures : ℕ) : DisasterRecoveryError :=
  if 0 < decryptFailures then .backupDecryptFailed else .downloadFailed errors

/-- The result of a restore and the output file. -/
def restoreMetadataFromCloud (manager : MetadataBackupProviderManager) :
    Except DisasterRecoveryError Unit × Option Bytes :=
  match trySources C S passphrase manager.sources {} with
  | (.restored, s) => (.ok (), s.output)
  | (.failed err, s) => (.error err, s.output)
  | (_, s) => (.error (finalizeRestoreError s.errors s.decryptFailures), s.output)

/-! ## The restore of a vault -/

inductive RestoreError where
  | missingProviderConfig (message : String)
  | incorrectPassphrase (message : String)
  | metadataNotFound (message : String)
  | networkError (message : String)
  | snapshotApply (message : String)
  | runtime (message : String)
  deriving DecidableEq, Repr

/-- A row of `provider_configs` with its secrets: none, unsealed or failing to unseal. -/
structure ProviderRow where
  providerName : String
  enabled : ℤ
  secrets : Option (Except String Unit)

/-- The local database as the restore sees it, and the snapshots grafted into it. -/
structure RestoreDb where
  systemConfig : String → Option String := fun _ => none
  providerConfigs : List ProviderRow := []
  grafted : List Bytes := []

/-- `db::set_system_config_value`. -/
def RestoreDb.setSystemConfigValue (db : RestoreDb) (key value : String) : RestoreDb :=
  { db with systemConfig := Function.update db.systemConfig key (some value) }

def restoreStateKey : String := "restore_state"

def restoreLastErrorAtKey : String := "restore_last_error_at"

def restoreLastErrorMsgKey : String := "restore_last_error_message"

/-- What a failed restore leaves in the configuration. -/
def RestoreDb.restoreFailed (db : RestoreDb) (now : ℤ) (reason : String) : RestoreDb :=
  ((db.setSystemConfigValue restoreStateKey "last_failed").setSystemConfigValue
    restoreLastErrorAtKey (toString now)).setSystemConfigValue restoreLastErrorMsgKey reason

def knownProviders : List String := ["cloudflare-r2", "backblaze-b2", "scaleway"]

/-- The characters that `trim` drops. -/
def isWhiteSpace (c : Char) : Bool :=
  (9 ≤ c.val && c.val ≤ 13) || (0x2000 ≤ c.val && c.val ≤ 0x200a) ||
    [0x20, 0x85, 0xa0, 0x1680, 0x2028, 0x2029, 0x202f, 0x205f, 0x3000].contains c.val

def trim (s : String) : String :=
  String.ofList ((s.toList.dropWhile isWhiteSpace).reverse.dropWhile isWhiteSpace).reverse

/-- `MetadataBackupProviderManager::from_onboarding_db`; the buckets are given by name. -/
def fromOnboardingDb (remote : String → MetadataBackupDownloadProvider) (db : RestoreDb)
    (selectedProvider : String) : Except DisasterRecoveryError MetadataBackupProviderManager :=
  match db.providerConfigs.find? fun row => row.providerName = selectedProvider with
  | none => .error .noConfiguredProviders
  | some row =>
    if row.enabled = 0 then .error .noConfiguredProviders
    else match row.secrets with
      | none => .error .noConfiguredProviders
      | some (.error err) =>
        .error (.downloadFailed ["failed to unseal provider secrets: " ++ err])
      | some (.ok ()) =>
        if row.providerName ∈ knownProviders then
          .ok { downloadProviders := [remote row.providerName] }
        else .error .noConfiguredProviders

def mapRestoreBootstrapError (providerId : String) : DisasterRecoveryError → RestoreError
  | .noConfiguredProviders => .missingProviderConfig
    ("dostawca " ++ providerId ++ " nie jest skonfigurowany z poprawnymi danymi dostępowymi")
  | other => .runtime ("nie udało się zainicjalizować restore dla dostawcy " ++ providerId ++
    ": " ++ other.display)

/-- `to_ascii_lowercase`. -/
def toAsciiLowercase (s : String) : String := String.ofList (s.toList.map Char.toLower)

/-- `contains` of a text in a text. -/
def containsText (s text : String) : Bool := decide (text.toList <:+: s.toList)

def mapRestoreDownloadError (providerId : String) : DisasterRecoveryError → RestoreError
  | .backupDecryptFailed => .incorrectPassphrase ("kopia metadanych od " ++ providerId ++
    " nie mogła zostać odszyfrowana podanym hasłem")
  | .downloadFailed errors =>
    let joined := " | ".intercalate errors
    let lower := toAsciiLowercase joined
    if containsText lower "nosuchkey" || containsText lower "not found" ||
        containsText lower "404" || containsText lower "latest.db.enc" then
      .metadataNotFound ("nie znaleziono kopii metadanych u dostawcy " ++ providerId ++ ": " ++
        joined)
    else if containsText lower "timed out" || containsText lower "dns" ||
        containsText lower "connection" || containsText lower "unreachable" then
      .networkError ("nie udało się pobrać kopii metadanych od dostawcy " ++ providerId ++ ": " ++
        joined)
    else .runtime ("pobieranie restore od dostawcy " ++ providerId ++ " nie powiodło się: " ++
      joined)
  | other => .runtime ("restore od dostawcy " ++ providerId ++ " nie powiódł się: " ++
    other.display)

structure VaultRestoreReport where
  providerName : String
  applied : VaultRestoreApplyReport
  deriving DecidableEq, Repr

/-- Restore from one provider into the local database. -/
def performVaultRestore (remote : String → MetadataBackupDownloadProvider) (now : ℤ)
    (providerId : String) (db : RestoreDb) : Except RestoreError VaultRestoreReport × RestoreDb :=
  let providerId := trim providerId
  if providerId = "" then
    (.error (.missingProviderConfig "provider_id cannot be empty"), db)
  else if trim passphrase = "" then
    (.error (.incorrectPassphrase "passphrase cannot be empty"), db)
  else match fromOnboardingDb remote db providerId with
    | .error err => (.error (mapRestoreBootstrapError providerId err), db)
    | .ok manager =>
      let db := db.setSystemConfigValue restoreStateKey "downloading"
      match restoreMetadataFromCloud C S passphrase manager with
      | (.error err, _) => (.error (mapRestoreDownloadError providerId err),
          db.restoreFailed now "download_failed")
      | (.ok (), staging) =>
        let db := db.setSystemConfigValue restoreStateKey "applying"
        match S.graftRestoredMetadataSnapshot (staging.getD []) with
        | .error err => (.error (.snapshotApply
            ("failed to apply restored metadata snapshot from " ++ S.stagingPath ++ ": " ++ err)),
            db.restoreFailed now "apply_failed")
        | .ok applied =>
          (.ok { providerName := providerId, applied },
            { db with grafted := db.grafted ++ [staging.getD []] }.setSystemConfigValue
              restoreStateKey "last_succeeded")

/-- The provider that is asked for, and then the other configured ones. -/
def tryOrder (preferredProvider : String) (db : RestoreDb) : List String :=
  let configured := (db.providerConfigs.map (·.providerName)).filter (· ∈ knownProviders)
  preferredProvider :: configured.filter (· ≠ preferredProvider)

/-- What the providers have answered. -/
structure JoinErrors where
  notFound : List String := []
  passphrase : List String := []

/-- The error when no provider has a snapshot that can be restored. -/
def JoinErrors.exhausted (errors : JoinErrors) : RestoreError :=
  if errors.passphrase ≠ [] then
    .incorrectPassphrase ("Żaden skonfigurowany dostawca nie pozwolił odszyfrować swojego " ++
      "snapshotu podanym hasłem. Albo hasło jest nieprawidłowe, albo wszystkie dostępne " ++
      "snapshoty są nieaktualne (z czasów sprzed ostatniej zmiany hasła). Sprawdzone: " ++
      ", ".intercalate errors.passphrase ++
      (if errors.notFound = [] then ""
        else " | bez snapshotu lub z błędem sieci: " ++ ", ".intercalate errors.notFound) ++ ".")
  else
    .metadataNotFound ("Żaden skonfigurowany dostawca nie posiada snapshotu metadanych. " ++
      "Sprawdzone: " ++ ", ".intercalate errors.notFound ++ ". " ++
      "Upewnij się, że na urządzeniu źródłowym Skarbiec był odblokowany co najmniej raz " ++
      "po instalacji (daemon uploaduje snapshot do chmury w ciągu 1 godziny od odblokowania).")

/-- The provider loop of `post_join_existing`. -/
def tryProviders (remote : String → MetadataBackupDownloadProvider) (now : ℤ) :
    List String → JoinErrors → RestoreDb → Except RestoreError VaultRestoreReport × RestoreDb
  | [], errors, db => (.error errors.exhausted, db)
  | providerId :: rest, errors, db =>
    match performVaultRestore C S passphrase remote now providerId db with
    | (.ok report, db) => (.ok report, db)
    | (.error (.incorrectPassphrase _), db) =>
      tryProviders remote now rest { errors with
        passphrase := errors.passphrase ++
          [providerId ++ ": cannot decrypt (stale snapshot or wrong password)"] } db
    | (.error (.metadataNotFound _), db) =>
      tryProviders remote now rest
        { errors with notFound := errors.notFound ++ [providerId ++ ": no snapshot"] } db
    | (.error (.networkError _), db) =>
      tryProviders remote now rest
        { errors with notFound := errors.notFound ++ [providerId ++ ": network error"] } db
    | (.error (.missingProviderConfig _), db) => tryProviders remote now rest errors db
    | (.error err, db) => (.error err, db)

/-- The restore of `post_join_existing`. -/
def joinExistingRestore (remote : String → MetadataBackupDownloadProvider) (now : ℤ)
    (preferredProvider : String) (db : RestoreDb) :
    Except RestoreError VaultRestoreReport × RestoreDb :=
  tryProviders C S passphrase remote now (tryOrder preferredProvider db) {} db

end Backup

end OmniDrive
