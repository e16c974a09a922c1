import Mathlib.Data.Prod.Lex
import OmniDrive.Storage.Records

/-!
# The statements on the file tables

The queries of `revisions.rs`, `conflicts.rs`, `chunks.rs`, `packs.rs`, `shards.rs`,
`uploads.rs` and of the pack keys in `vault_state.rs`. Each query is one statement, and each
transaction is one statement. As for the vault, a statement that the database itself refuses is
an outcome only where the code looks at it.
-/

namespace OmniDrive

open StatementProgram Tables

variable {P : Primitives} {ε : Type}

namespace Db

/-! ## `revisions.rs` -/

/-- The revisions of an inode with the flag of the current one cleared. -/
def clearCurrent (inodeId : ℤ) (db : FileDb) : FileDb :=
  { db with
    fileRevisions := updateWhere (·.inodeId = inodeId) (fun r => { r with isCurrent := false })
      db.fileRevisions }

/-- Add a row under the next automatic `revision_id`. -/
def appendRevision (inodeId size : ℤ) (immutableUntil : Option ℤ) (deviceId : Option String)
    (parentRevisionId : Option ℤ) (origin : String) (conflictReason : Option String)
    (createdAt : ℤ) (db : FileDb) : FileDb :=
  { db with
    fileRevisions := db.fileRevisions ++
      [{ revisionId := db.revisionSequence + 1, inodeId, createdAt, size, isCurrent := true,
         immutableUntil, deviceId, parentRevisionId, origin, conflictReason }]
    revisionSequence := db.revisionSequence + 1 }

/-- Both writes of a new revision commit together. -/
def createFileRevision (inodeId size : ℤ) (immutableUntil : Option ℤ) (deviceId : Option String)
    (parentRevisionId : Option ℤ) (origin : String) (conflictReason : Option String) :
    FileProg P ε ℤ :=
  Prog.execReturning
    (fun w =>
      { w with
        db := appendRevision inodeId size immutableUntil deviceId parentRevisionId origin
          conflictReason w.now (clearCurrent inodeId w.db) })
    fun w => w.db.revisionSequence + 1

/-- The current revision of an inode. -/
def currentRevision (inodeId : ℤ) (db : FileDb) : Option FileRevisionRecord :=
  (orderBy (fun r => -r.revisionId)
    (db.fileRevisions.filter fun r => r.inodeId = inodeId && r.isCurrent)).head?

def getCurrentFileRevision (inodeId : ℤ) : FileProg P ε (Option FileRevisionRecord) :=
  selectFiles (currentRevision inodeId)

/-- One revision of an inode. -/
def revisionOf (inodeId revisionId : ℤ) (db : FileDb) : Option FileRevisionRecord :=
  db.fileRevisions.find? fun r => r.inodeId = inodeId && r.revisionId = revisionId

def getFileRevision (inodeId revisionId : ℤ) : FileProg P ε (Option FileRevisionRecord) :=
  selectFiles (revisionOf inodeId revisionId)

/-- The storage mode of the policy that covers an inode; without one it is `PARANOIA`. -/
def storageModeOf (inodeId : ℤ) (db : FileDb) : StorageMode :=
  .fromPolicyType ((db.policyTypes inodeId).getD "PARANOIA")

def getStorageModeForInode (inodeId : ℤ) : FileProg P ε StorageMode :=
  selectFiles (storageModeOf inodeId)

inductive RevisionLineageRelation where
  | same
  | candidateDescendsFromCurrent
  | currentDescendsFromCandidate
  | parallel
  deriving DecidableEq, Repr

/-- A revision and its ancestors; parents come before their children, so there are no more of
them than revisions. -/
def lineage (revisions : List FileRevisionRecord) : ℕ → ℤ → List ℤ
  | 0, _ => []
  | fuel + 1, revisionId =>
    match revisions.find? (·.revisionId = revisionId) with
    | none => []
    | some r => r.revisionId :: match r.parentRevisionId with
      | some parent => lineage revisions fuel parent
      | none => []

def isRevisionAncestor (ancestorRevisionId descendantRevisionId : ℤ) : FileProg P ε Bool :=
  selectFiles fun db =>
    decide (ancestorRevisionId ∈
      lineage db.fileRevisions db.fileRevisions.length descendantRevisionId)

def classifyRevisionLineage (candidateRevisionId currentRevisionId : ℤ) :
    FileProg P ε RevisionLineageRelation := do
  if candidateRevisionId = currentRevisionId then pure .same
  else if ← isRevisionAncestor currentRevisionId candidateRevisionId then
    pure .candidateDescendsFromCurrent
  else if ← isRevisionAncestor candidateRevisionId currentRevisionId then
    pure .currentDescendsFromCandidate
  else pure .parallel

/-! ## `chunks.rs` -/

/-- Add a row under the next automatic identifier. -/
def appendChunkRef (revisionId : ℤ) (chunkId : Bytes) (offset size : ℤ) (db : FileDb) : FileDb :=
  { db with
    chunkRefs := db.chunkRefs ++
      [{ id := db.chunkRefSequence + 1, revisionId, chunkId, fileOffset := offset, size }]
    chunkRefSequence := db.chunkRefSequence + 1 }

def registerChunk (revisionId : ℤ) (chunkId : Bytes) (offset size : ℤ) : FileProg P ε ℤ :=
  Prog.execReturning (fun w => { w with db := appendChunkRef revisionId chunkId offset size w.db })
    fun w => w.db.chunkRefSequence + 1

/-- The chunks of a revision by file offset. -/
def refsOf (revisionId : ℤ) (db : FileDb) : List ChunkRefRecord :=
  orderBy (·.fileOffset) (db.chunkRefs.filter (·.revisionId = revisionId))

def copyChunkRefs (fromRevisionId toRevisionId : ℤ) : FileProg P ε Unit :=
  writeFiles fun db => (refsOf fromRevisionId db).foldl
    (fun db r => appendChunkRef toRevisionId r.chunkId r.fileOffset r.size db) db

/-- The location of a numbered chunk; a chunk without a row in `pack_locations` has none. -/
def locate (db : FileDb) (numbered : ChunkRefRecord × ℕ) : Option FileChunkLocation :=
  (db.packLocations.find? (·.chunkId = numbered.1.chunkId)).map fun pl =>
    { chunkId := numbered.1.chunkId
      chunkIndex := numbered.2
      fileOffset := numbered.1.fileOffset
      size := numbered.1.size
      packId := pl.packId
      packOffset := pl.packOffset
      encryptedSize := pl.encryptedSize }

/-- The chunks numbered by file offset, with the locations of those that have one. -/
def locateAll (db : FileDb) (refs : List ChunkRefRecord) : List FileChunkLocation :=
  (orderBy (·.fileOffset) refs).zipIdx.filterMap (locate db)

/-- The chunks of the current revisions of an inode. -/
def currentRefs (inodeId : ℤ) (db : FileDb) : List ChunkRefRecord :=
  db.chunkRefs.filter fun cr => db.fileRevisions.any fun fr =>
    fr.revisionId = cr.revisionId && fr.inodeId = inodeId && fr.isCurrent

def getFileChunkLocations (inodeId : ℤ) : FileProg P ε (List FileChunkLocation) :=
  selectFiles fun db => locateAll db (currentRefs inodeId db)

/-- The chunks of one revision of an inode. -/
def revisionRefs (inodeId revisionId : ℤ) (db : FileDb) : List ChunkRefRecord :=
  db.chunkRefs.filter fun cr => cr.revisionId = revisionId && db.fileRevisions.any fun fr =>
    fr.revisionId = revisionId && fr.inodeId = inodeId

/-- The chunks are numbered over the whole revision, and then cut down to the range. -/
def revisionLocationsInRange (inodeId revisionId startOffset endOffset : ℤ) (db : FileDb) :
    List FileChunkLocation :=
  (locateAll db (revisionRefs inodeId revisionId db)).filter fun l =>
    l.fileOffset + l.size > startOffset && l.fileOffset < endOffset

def getRevisionChunkLocationsInRange (inodeId revisionId startOffset endOffset : ℤ) :
    FileProg P ε (List FileChunkLocation) :=
  selectFiles (revisionLocationsInRange inodeId revisionId startOffset endOffset)

/-- What a lookup by chunk identifier returns. -/
structure ChunkLookupRecord where
  inodeId : ℤ
  revisionId : ℤ
  chunkId : Bytes
  chunkIndex : ℤ
  fileOffset : ℤ
  size : ℤ
  packId : String
  packOffset : ℤ
  encryptedSize : ℤ
  deriving DecidableEq, Repr

/-- The references to a chunk with their revisions, by file offset. -/
def refsToChunk (chunkId : Bytes) (db : FileDb) : List (ChunkRefRecord × FileRevisionRecord) :=
  (orderBy (·.fileOffset) (db.chunkRefs.filter (·.chunkId = chunkId))).filterMap fun cr =>
    (db.fileRevisions.find? (·.revisionId = cr.revisionId)).map fun fr => (cr, fr)

/-- The number of a reference among the references of its revision. -/
def rowNumber (refs : List (ChunkRefRecord × FileRevisionRecord)) (cr : ChunkRefRecord) : ℕ :=
  ((refs.filter (·.1.revisionId = cr.revisionId)).map Prod.fst).idxOf cr

/-- The references to one chunk are numbered per revision, and the first one of the latest current
revision is taken. -/
def chunkLookup (chunkId : Bytes) (db : FileDb) : Option ChunkLookupRecord := do
  let refs := refsToChunk chunkId db
  let ordered := orderBy (fun p : ChunkRefRecord × FileRevisionRecord =>
    toLex (!p.2.isCurrent, toLex (-p.2.createdAt, -p.2.revisionId))) refs
  let (cr, fr) ← ordered.head?
  let pl ← db.packLocations.find? (·.chunkId = chunkId)
  some
    { inodeId := fr.inodeId
      revisionId := fr.revisionId
      chunkId := cr.chunkId
      chunkIndex := rowNumber refs cr
      fileOffset := cr.fileOffset
      size := cr.size
      packId := pl.packId
      packOffset := pl.packOffset
      encryptedSize := pl.encryptedSize }

def getChunkLookupByChunkId (chunkId : Bytes) : FileProg P ε (Option ChunkLookupRecord) :=
  selectFiles (chunkLookup chunkId)

/-- Point a chunk at a pack, replacing its old location. -/
def setLocation (chunkId : Bytes) (packId : String) (packOffset encSize : ℤ) (db : FileDb) :
    FileDb :=
  { db with
    packLocations := upsert PackLocation.chunkId
      (fun pl => { pl with packId, packOffset, encryptedSize := encSize })
      { chunkId, packId, packOffset, encryptedSize := encSize } db.packLocations }

def linkChunkToPack (chunkId : Bytes) (packId : String) (packOffset encSize : ℤ) :
    FileProg P ε Unit :=
  writeFiles (setLocation chunkId packId packOffset encSize)

/-! ## `packs.rs` -/

/-- Insert a pack, replacing the row with its identifier. -/
def putPack (pack : PackRecord) (db : FileDb) : FileDb :=
  { db with packs := upsert PackRecord.packId (fun _ => pack) pack db.packs }

def createPack (pack : PackRecord) : FileProg P ε Unit := writeFiles (putPack pack)

def updatePackStatus (packId : String) (status : PackStatus) : FileProg P ε Unit :=
  writeFiles fun db =>
    { db with packs := updateWhere (·.packId = packId) (fun p => { p with status }) db.packs }

/-- The pack with an identifier. -/
def packOf (packId : String) (db : FileDb) : Option PackRecord :=
  db.packs.find? (·.packId = packId)

def getPack (packId : String) : FileProg P ε (Option PackRecord) := selectFiles (packOf packId)

/-- The rank of a status in the search for a pack to reuse. -/
def reuseRank : PackStatus → ℕ
  | .healthy => 0
  | .degraded => 1
  | .uploading => 2
  | .unreadable => 3

/-- The best pack of a storage mode for a plaintext hash; unreadable packs are not reused. -/
def packByPlaintextHash (plaintextHash : String) (storageMode : StorageMode) (db : FileDb) :
    Option PackRecord :=
  (orderBy (fun p : PackRecord => toLex (reuseRank p.status, p.packId))
    (db.packs.filter fun p => p.plaintextHash = some plaintextHash &&
      p.storageMode = storageMode && p.status ≠ .unreadable)).head?

def findPackByPlaintextHash (plaintextHash : String) (storageMode : StorageMode) :
    FileProg P ε (Option PackRecord) :=
  selectFiles (packByPlaintextHash plaintextHash storageMode)

/-- The inodes of the revisions that refer to a chunk located in a pack. -/
def referencingInodeIds (packId : String) (db : FileDb) : List ℤ :=
  orderBy id ((db.packLocations.filter (·.packId = packId)).flatMap fun pl =>
    (db.chunkRefs.filter (·.chunkId = pl.chunkId)).flatMap fun cr =>
      (db.fileRevisions.filter (·.revisionId = cr.revisionId)).map (·.inodeId)).dedup

/-- The strongest storage mode that the policies of the inodes ask for. -/
def desiredMode (db : FileDb) : StorageMode → List ℤ → StorageMode
  | desired, [] => desired
  | desired, inodeId :: rest =>
    match storageModeOf inodeId db with
    | .ec21 => .ec21
    | .singleReplica => desiredMode db .singleReplica rest
    | .localOnly => desiredMode db desired rest

def getDesiredStorageModeForPack (packId : String) : FileProg P ε StorageMode := do
  let inodeIds ← selectFiles (referencingInodeIds packId)
  if inodeIds.isEmpty then pure .ec21
  else selectFiles fun db => desiredMode db .localOnly inodeIds

/-! ## `shards.rs` -/

/-- Insert a shard, replacing the row of its pack and index. -/
def putShard (shard : PackShardRecord) (db : FileDb) : FileDb :=
  { db with
    packShards := upsert (fun s : PackShardRecord => (s.packId, s.shardIndex))
      (fun old => { shard with attempts := old.attempts }) shard db.packShards }

def registerPackShard (shard : PackShardRecord) : FileProg P ε Unit := writeFiles (putShard shard)

/-- The shards of a pack by index. -/
def shardsOf (packId : String) (db : FileDb) : List PackShardRecord :=
  orderBy (·.shardIndex) (db.packShards.filter (·.packId = packId))

def getPackShards (packId : String) : FileProg P ε (List PackShardRecord) :=
  selectFiles (shardsOf packId)

def getIncompletePackShards (packId : String) : FileProg P ε (List PackShardRecord) :=
  selectFiles fun db => (shardsOf packId db).filter fun s =>
    s.status ≠ .completed && s.status ≠ .permanentlyFailed

/-- Update one shard of a pack. -/
def updateShard (packId : String) (shardIndex : ℤ) (f : PackShardRecord → PackShardRecord)
    (db : FileDb) : FileDb :=
  { db with
    packShards := updateWhere (fun s => s.packId = packId && s.shardIndex = shardIndex) f
      db.packShards }

def markPackShardInProgress (packId : String) (shardIndex : ℤ) : FileProg P ε Unit :=
  writeFiles (updateShard packId shardIndex fun s =>
    { s with status := .inProgress, lastError := none })

def markPackShardCompleted (packId : String) (shardIndex : ℤ) : FileProg P ε Unit :=
  writeFiles (updateShard packId shardIndex fun s =>
    { s with status := .completed, lastError := none })

def requeuePackShard (packId : String) (shardIndex : ℤ) (errorMessage : String) :
    FileProg P ε Unit :=
  writeFiles (updateShard packId shardIndex fun s =>
    { s with status := .pending, attempts := s.attempts + 1, lastError := some errorMessage })

def markPackShardFailed (packId : String) (shardIndex : ℤ) (errorMessage : String) :
    FileProg P ε Unit :=
  writeFiles (updateShard packId shardIndex fun s =>
    { s with status := .failed, attempts := s.attempts + 1, lastError := some errorMessage })

def markPackShardPermanentlyFailed (packId : String) (shardIndex : ℤ) (errorMessage : String) :
    FileProg P ε Unit :=
  writeFiles (updateShard packId shardIndex fun s =>
    { s with status := .permanentlyFailed, lastError := some errorMessage })

structure PackShardSummary where
  total : ℕ
  completed : ℕ
  pending : ℕ
  inProgress : ℕ
  failed : ℕ
  deriving DecidableEq, Repr

/-- The shards of a pack counted by status. -/
def shardSummary (packId : String) (db : FileDb) : PackShardSummary :=
  let shards := db.packShards.filter (·.packId = packId)
  { total := shards.length
    completed := (shards.filter (·.status = .completed)).length
    pending := (shards.filter (·.status = .pending)).length
    inProgress := (shards.filter (·.status = .inProgress)).length
    failed := (shards.filter (·.status = .failed)).length }

def summarizePackShards (packId : String) : FileProg P ε PackShardSummary :=
  selectFiles (shardSummary packId)

def resolvePackStatusForMode (storageMode : StorageMode) (summary : PackShardSummary) :
    PackStatus :=
  match storageMode with
  | .ec21 =>
    if summary.completed ≥ 3 then .healthy
    else if summary.completed ≥ 2 then .degraded
    else if summary.pending > 0 ∨ summary.inProgress > 0 then .uploading
    else .unreadable
  | .singleReplica =>
    if summary.completed ≥ 1 then .healthy
    else if summary.pending > 0 ∨ summary.inProgress > 0 then .uploading
    else .unreadable
  | .localOnly => .healthy

/-! ## `uploads.rs` -/

/-- Queue a pack; a completed job becomes pending again. -/
def queueUpload (packId : String) (db : FileDb) : FileDb :=
  { db with
    uploadJobs := upsert UploadJob.packId
      (fun job => { job with
        status := if job.status = .completed then .pending else job.status })
      { packId, status := .pending } db.uploadJobs }

def queuePackForUpload (packId : String) : FileProg P ε Unit := writeFiles (queueUpload packId)

/-! ## Pack keys -/

/-- Bind a pack to a DEK unless it is bound already. -/
def bindPackDek (packId : String) (dekId : ℤ) (db : FileDb) : FileDb :=
  { db with packDeks := insertOrIgnore PackDek.packId { packId, dekId } db.packDeks }

def setPackDek (packId : String) (dekId : ℤ) : FileProg P ε Unit :=
  writeFiles (bindPackDek packId dekId)

/-- The DEK a pack is bound to. -/
def packDekId (packId : String) (db : FileDb) : Option ℤ :=
  (db.packDeks.find? (·.packId = packId)).map (·.dekId)

def getPackDekId (packId : String) : FileProg P ε (Option ℤ) := selectFiles (packDekId packId)

/-- The inode of the earliest revision that refers to a chunk located in a pack. -/
def creatingInode (packId : String) (db : FileDb) : Option ℤ :=
  ((orderBy (·.revisionId) ((db.packLocations.filter (·.packId = packId)).flatMap fun pl =>
    (db.chunkRefs.filter (·.chunkId = pl.chunkId)).flatMap fun cr =>
      db.fileRevisions.filter (·.revisionId = cr.revisionId))).head?).map (·.inodeId)

def creatingInodeForPack (packId : String) : FileProg P ε (Option ℤ) :=
  selectFiles (creatingInode packId)

end Db

end OmniDrive
