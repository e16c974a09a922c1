import Mathlib.Data.String.Basic
import OmniDrive.Library.ByteFields
import OmniDrive.Vault.KeyStore

/-!
# The file tables, the spool and the object stores

The rows of the tables that describe files, revisions, chunks, packs and shards, the local spool
directory and the objects at the providers. Together with the vault they are the state of the
storage code.
-/

namespace OmniDrive

open StatementProgram ByteFields

inductive PackStatus where
  | uploading
  | healthy
  | degraded
  | unreadable
  deriving DecidableEq, Repr

inductive ShardRole where
  | data
  | parity
  deriving DecidableEq, Repr

inductive StorageMode where
  | ec21
  | singleReplica
  | localOnly
  deriving DecidableEq, Repr

namespace StorageMode

def asStr : StorageMode → String
  | .ec21 => "EC_2_1"
  | .singleReplica => "SINGLE_REPLICA"
  | .localOnly => "LOCAL_ONLY"

def fromPolicyType (value : String) : StorageMode :=
  if value = "STANDARD" then .singleReplica
  else if value = "LOCAL" then .localOnly
  else .ec21

end StorageMode

inductive ShardStatus where
  | pending
  | inProgress
  | completed
  | failed
  | permanentlyFailed
  deriving DecidableEq, Repr

inductive UploadStatus where
  | pending
  | inProgress
  | completed
  | failed
  deriving DecidableEq, Repr

/-- A row of `inodes`. -/
structure InodeRecord where
  id : ℤ
  parentId : Option ℤ
  name : String
  kind : String
  size : ℤ
  deletedAt : Option ℤ := none
  mtime : Option ℤ := none
  deriving DecidableEq, Repr

/-- A row of `file_revisions`. -/
structure FileRevisionRecord where
  revisionId : ℤ
  inodeId : ℤ
  createdAt : ℤ
  size : ℤ
  isCurrent : Bool
  immutableUntil : Option ℤ
  deviceId : Option String
  parentRevisionId : Option ℤ
  origin : String
  conflictReason : Option String
  deriving DecidableEq, Repr

/-- A row of `conflict_events`. -/
structure ConflictEventRecord where
  conflictId : ℤ
  inodeId : ℤ
  winningRevisionId : ℤ
  losingRevisionId : ℤ
  reason : String
  materializedInodeId : Option ℤ := none
  materializedRevisionId : Option ℤ := none
  deriving DecidableEq, Repr

/-- A row of `chunk_refs`. -/
structure ChunkRefRecord where
  id : ℤ
  revisionId : ℤ
  chunkId : Bytes
  fileOffset : ℤ
  size : ℤ
  deriving DecidableEq, Repr

/-- A row of `packs`. -/
structure PackRecord where
  packId : String
  chunkId : Bytes
  plaintextHash : Option String
  storageMode : StorageMode
  encryptionVersion : ℤ
  ecScheme : String
  logicalSize : ℤ
  cipherSize : ℤ
  shardSize : ℤ
  nonce : Bytes
  gcmTag : Bytes
  status : PackStatus
  deriving DecidableEq, Repr

/-- The name of an object, `packs/{packId}/shards/{shardIndex}.shard`. -/
structure ObjectKey where
  packId : String
  shardIndex : ℕ
  deriving DecidableEq, Repr

/-- A row of `pack_shards`. -/
structure PackShardRecord where
  packId : String
  shardIndex : ℤ
  shardRole : ShardRole
  provider : String
  objectKey : ObjectKey
  size : ℤ
  checksum : String
  status : ShardStatus
  attempts : ℤ := 0
  lastError : Option String := none
  deriving DecidableEq, Repr

/-- A row of `pack_locations`. -/
structure PackLocation where
  chunkId : Bytes
  packId : String
  packOffset : ℤ
  encryptedSize : ℤ
  deriving DecidableEq, Repr

/-- A row of `pack_deks`. -/
structure PackDek where
  packId : String
  dekId : ℤ
  deriving DecidableEq, Repr

/-- A row of `upload_jobs`. -/
structure UploadJob where
  packId : String
  status : UploadStatus
  deriving DecidableEq, Repr

/-- The tables of files, revisions, chunks and packs. -/
structure FileDb where
  inodes : List InodeRecord := []
  inodeSequence : ℤ := 0
  fileRevisions : List FileRevisionRecord := []
  revisionSequence : ℤ := 0
  conflictEvents : List ConflictEventRecord := []
  conflictSequence : ℤ := 0
  chunkRefs : List ChunkRefRecord := []
  chunkRefSequence : ℤ := 0
  packs : List PackRecord := []
  packShards : List PackShardRecord := []
  packLocations : List PackLocation := []
  packDeks : List PackDek := []
  uploadJobs : List UploadJob := []
  /-- The `policy_type` of the longest sync policy that covers the path of an inode. -/
  policyTypes : ℤ → Option String := fun _ => none

/-- The files of the spool directory, by pack and by pack and shard. -/
structure SpoolDir where
  manifests : String → Option Bytes := fun _ => none
  shards : String → ℕ → Option Bytes := fun _ _ => none

/-- The vault, the file tables, the spool, the packs already downloaded, the objects of each
provider and the clock. -/
structure FileWorld (P : Primitives) where
  vault : VaultWorld P
  db : FileDb := {}
  spool : SpoolDir := {}
  downloads : String → Option Bytes := fun _ => none
  objects : String → ObjectKey → Option Bytes := fun _ _ => none
  now : ℤ := 0

/-- One of the locations a file is read from: a chunk, its place in the file and its record. -/
structure FileChunkLocation where
  chunkId : Bytes
  chunkIndex : ℤ
  fileOffset : ℤ
  size : ℤ
  packId : String
  packOffset : ℤ
  encryptedSize : ℤ
  deriving DecidableEq, Repr

variable {P : Primitives} {ε α β : Type}

/-- A program of the storage code. -/
abbrev FileProg (P : Primitives) (ε α : Type) := Prog (FileWorld P) ε α

/-- A read of the file tables. -/
def selectFiles (f : FileDb → α) : FileProg P ε α := Prog.query fun w => f w.db

/-- A write of the file tables. -/
def writeFiles (f : FileDb → FileDb) : FileProg P ε Unit :=
  Prog.exec fun w => { w with db := f w.db }

/-- Run the key store on the vault of the world. -/
def onVault (toError : VaultError → ε) (p : VaultProg P α) : FileProg P ε α :=
  (p.mapError toError).zoom (·.vault) fun vault w => { w with vault }

@[simp] theorem run_selectFiles (f : FileDb → α) (w : FileWorld P) :
    (selectFiles f : FileProg P ε α).run w = (.ok (f w.db), w) := rfl

@[simp] theorem run_writeFiles (f : FileDb → FileDb) (w : FileWorld P) :
    (writeFiles f : FileProg P ε Unit).run w = (.ok (), { w with db := f w.db }) := rfl

/-- The key store changes nothing but the vault. -/
theorem run_onVault (toError : VaultError → ε) (p : VaultProg P α) (w : FileWorld P) :
    (onVault toError p).run w =
      ((p.run w.vault).1.mapError toError, { w with vault := (p.run w.vault).2 }) := by
  have hzoom : (onVault toError p).run w = (((p.mapError toError).run w.vault).1,
      { w with vault := ((p.mapError toError).run w.vault).2 }) :=
    Prog.run_zoom (fun t : FileWorld P => t.vault) (fun vault t => { t with vault })
      (fun _ _ => rfl) (fun _ _ _ => rfl) (fun _ => rfl) _ w
  rw [Prog.run_mapError] at hzoom
  exact hzoom

@[simp] theorem run_selectFiles_bind (f : FileDb → α) (k : α → FileProg P ε β) (w : FileWorld P) :
    (selectFiles f >>= k).run w = (k (f w.db)).run w := rfl

@[simp] theorem run_writeFiles_bind (f : FileDb → FileDb) (k : Unit → FileProg P ε β)
    (w : FileWorld P) :
    (writeFiles f >>= k).run w = (k ()).run { w with db := f w.db } := rfl

/-- The world with other file tables. -/
def FileWorld.withDb (w : FileWorld P) (db : FileDb) : FileWorld P := { w with db }

@[simp] theorem FileWorld.db_withDb (w : FileWorld P) (db : FileDb) : (w.withDb db).db = db := rfl

@[simp] theorem FileWorld.withDb_withDb (w : FileWorld P) (db db' : FileDb) :
    (w.withDb db).withDb db' = w.withDb db' := rfl

@[simp] theorem run_writeFiles_withDb (f : FileDb → FileDb) (k : Unit → FileProg P ε β)
    (w : FileWorld P) (db : FileDb) :
    (writeFiles f >>= k).run (w.withDb db) = (k ()).run (w.withDb (f db)) := rfl

@[simp] theorem run_selectFiles_withDb (f : FileDb → α) (k : α → FileProg P ε β)
    (w : FileWorld P) (db : FileDb) :
    (selectFiles f >>= k).run (w.withDb db) = (k (f db)).run (w.withDb db) := rfl

end OmniDrive
