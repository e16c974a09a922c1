import OmniDrive.Storage.ConflictCopy
import OmniDrive.Storage.Erasure

/-!
# Packing a file

The writer of `packer.rs`: a file is read in chunks, each chunk becomes a pack of its own or
reuses one with the same plaintext, and then the revision, its chunks and the packs are written
one statement at a time.
-/

namespace OmniDrive

open StatementProgram ByteFields

inductive PackerError where
  | db (err : DbError)
  | crypto (err : CryptoError)
  | vault (err : VaultError)
  | numericOverflow (context : String)
  | invalidStoredPack (field : String)
  deriving DecidableEq, Repr

structure PackerConfig where
  chunkSize : ℕ
  chunkSize_pos : 0 < chunkSize

structure PreparedShard where
  shardIndex : ℤ
  shardRole : ShardRole
  provider : String
  objectKey : ObjectKey
  size : ℤ
  checksum : String
  deriving DecidableEq, Repr

structure PreparedPack where
  packId : String
  chunkId : ChunkId
  plaintextHash : String
  storageMode : StorageMode
  fileOffset : ℤ
  plainSize : ℤ
  cipherSize : ℤ
  shardSize : ℤ
  manifestSize : ℤ
  nonce : ChunkNonce
  gcmTag : GcmTag
  shards : List PreparedShard
  isDeduplicated : Bool
  dekId : Option ℤ
  deriving DecidableEq

structure PackResult where
  revisionId : ℤ
  packIds : List String
  chunkCount : ℕ
  logicalSize : ℤ
  encryptedSize : ℤ
  conflictCopyName : Option String
  deriving DecidableEq, Repr

namespace Packer

/-! ## Checked conversions -/

def toI64 (value : ℕ) (context : String) : Except PackerError ℤ :=
  if value < 2 ^ 63 then .ok value else .error (.numericOverflow context)

def checkedAddI64 (lhs rhs : ℤ) (context : String) : Except PackerError ℤ :=
  if -2 ^ 63 ≤ lhs + rhs ∧ lhs + rhs < 2 ^ 63 then .ok (lhs + rhs)
  else .error (.numericOverflow context)

/-- A checked conversion that names the field on failure. -/
def storedField (n : ℕ) (bytes : Bytes) (field : String) : Except PackerError (FixedBytes n) :=
  match FixedBytes.tryFrom n bytes with
  | some b => .ok b
  | none => .error (.invalidStoredPack field)

def manifestSizeFromPack (pack : PackRecord) : Except PackerError ℤ :=
  if 0 ≤ pack.cipherSize then
    toI64 (ChunkRecordPrefix.size + pack.cipherSize.toNat + pack.gcmTag.length)
      "stored manifest size"
  else .error (.numericOverflow "stored cipher_size")

def storageModeScheme : StorageMode → String
  | .ec21 => "rs_2_1"
  | .singleReplica => "single_replica"
  | .localOnly => "local_only"

variable {P : Primitives} (C : ChunkPrimitives P)

def computePackId (storageMode : StorageMode) (manifestBytes : Bytes) : String :=
  C.sha256Hex (storageMode.asStr.toUTF8.data.toList ++ 0 :: manifestBytes)

/-! ## Files in the spool -/

section Spool

variable {ε : Type}

/-- Write the manifest of a pack. -/
def writeManifest (packId : String) (bytes : Bytes) : FileProg P ε Unit :=
  Prog.exec fun w =>
    { w with
      spool := { w.spool with manifests := Function.update w.spool.manifests packId (some bytes) } }

/-- The shard files with one file written. -/
def SpoolDir.setShard (packId : String) (index : ℕ) (bytes : Bytes) (spool : SpoolDir) : SpoolDir :=
  { spool with
    shards := Function.update spool.shards packId
      (Function.update (spool.shards packId) index (some bytes)) }

/-- Write one shard of a pack. -/
def writeShard (packId : String) (index : ℕ) (bytes : Bytes) : FileProg P ε Unit :=
  Prog.exec fun w => { w with spool := SpoolDir.setShard packId index bytes w.spool }

end Spool

def shardProviders : List String := ["cloudflare-r2", "backblaze-b2", "scaleway"]

def singleReplicaProvider : String := "backblaze-b2"

/-- The bytes of the shards of a ciphertext in a storage mode. -/
def shardBytes (ciphertext : Bytes) : StorageMode → List Bytes
  | .ec21 => splitCiphertextIntoShards C ciphertext
  | .singleReplica => [ciphertext]
  | .localOnly => []

/-- One shard of a pack. -/
def preparedShard (storageMode : StorageMode) (packId : String) (index : ℕ) (bytes : Bytes) :
    PreparedShard :=
  { shardIndex := index
    shardRole := if storageMode = .ec21 ∧ dataShards ≤ index then .parity else .data
    provider := match storageMode with
      | .ec21 => shardProviders.getD index ""
      | _ => singleReplicaProvider
    objectKey := { packId, shardIndex := index }
    size := bytes.length
    checksum := C.sha256Hex bytes }

/-- Write the remaining shards of a pack, numbered from `index` on. -/
def buildShardsFrom (storageMode : StorageMode) (packId : String) :
    ℕ → List Bytes → FileProg P PackerError (List PreparedShard)
  | _, [] => pure []
  | index, bytes :: rest => do
    writeShard packId index bytes
    let _ ← Prog.ofExcept (toI64 index "shard index")
    let _ ← Prog.ofExcept (toI64 bytes.length "shard size")
    let tail ← buildShardsFrom storageMode packId (index + 1) rest
    pure (preparedShard C storageMode packId index bytes :: tail)

def buildShards (packId : String) (ciphertext : Bytes) (storageMode : StorageMode) :
    FileProg P PackerError (List PreparedShard) :=
  buildShardsFrom C storageMode packId 0 (shardBytes C ciphertext storageMode)

/-! ## Preparing the chunks -/

/-- Reuse a pack that holds the same plaintext. -/
def reusePack (plaintextHash : String) (storageMode : StorageMode) (fileOffset plainSize : ℤ)
    (existing : PackRecord) : Except PackerError PreparedPack := do
  let manifestSize ← manifestSizeFromPack existing
  let chunkId ← storedField 32 existing.chunkId "chunk_id"
  let nonce ← storedField 12 existing.nonce "nonce"
  let gcmTag ← storedField 16 existing.gcmTag "gcm_tag"
  pure
    { packId := existing.packId
      chunkId
      plaintextHash
      storageMode
      fileOffset
      plainSize
      cipherSize := existing.cipherSize
      shardSize := existing.shardSize
      manifestSize
      nonce
      gcmTag
      shards := []
      isDeduplicated := true
      dekId := none }

/-- The size that is stored for the shards of a pack. -/
def shardSizeOf (storageMode : StorageMode) (shards : List PreparedShard) :
    Except PackerError ℤ :=
  if storageMode = .localOnly then .ok 0
  else match shards with
    | [] => .error (.numericOverflow "missing shard size")
    | shard :: _ => .ok shard.size

/-- Encrypt a chunk under its DEK and write its manifest and its shards to the spool. -/
def spoolPack (storageMode : StorageMode) (plaintextHash : String) (fileOffset plainSize : ℤ)
    (plaintext : Bytes) (dekId : ℤ) (dek : P.Key) (nonceDraw : ℕ) :
    FileProg P PackerError PreparedPack := do
  let encrypted := encryptChunkV2 C dek nonceDraw plaintext []
  let manifestBytes := buildManifestBytesV2 encrypted.chunkId encrypted.nonce encrypted.ciphertext
    encrypted.gcmTag plaintext.length dekId
  let packId := computePackId C storageMode manifestBytes
  writeManifest packId manifestBytes
  let shards ← buildShards C packId encrypted.ciphertext storageMode
  let cipherSize ← Prog.ofExcept (toI64 encrypted.ciphertext.length "cipher size")
  let shardSize ← Prog.ofExcept (shardSizeOf storageMode shards)
  let manifestSize ← Prog.ofExcept (toI64 manifestBytes.length "manifest size")
  pure
    { packId
      chunkId := encrypted.chunkId
      plaintextHash
      storageMode
      fileOffset
      plainSize
      cipherSize
      shardSize
      manifestSize
      nonce := encrypted.nonce
      gcmTag := encrypted.gcmTag
      shards
      isDeduplicated := false
      dekId := some dekId }

/-- Draw a DEK and a nonce for a chunk, and spool its pack. -/
def newPack (inodeId : ℤ) (storageMode : StorageMode) (plaintextHash : String)
    (fileOffset plainSize : ℤ) (plaintext : Bytes) : FileProg P PackerError PreparedPack := do
  let (dekId, dek) ← onVault .vault (VaultKeyStore.createPackDek inodeId)
  let nonceDraw ← onVault .vault (draw id)
  spoolPack C storageMode plaintextHash fileOffset plainSize plaintext dekId dek nonceDraw

def prepareChunk (inodeId : ℤ) (storageMode : StorageMode) (fileOffset : ℤ) (plaintext : Bytes) :
    FileProg P PackerError PreparedPack := do
  let plaintextHash := C.sha256Hex plaintext
  let plainSize ← Prog.ofExcept (toI64 plaintext.length "chunk size")
  match ← Db.findPackByPlaintextHash plaintextHash storageMode with
  | some existing =>
    Prog.ofExcept (reusePack plaintextHash storageMode fileOffset plainSize existing)
  | none => newPack C inodeId storageMode plaintextHash fileOffset plainSize plaintext

/-- The loop over the chunks of the file. -/
def prepareChunks (inodeId : ℤ) (storageMode : StorageMode) :
    ℤ → List Bytes → FileProg P PackerError (List PreparedPack)
  | _, [] => pure []
  | fileOffset, plaintext :: rest => do
    let prepared ← prepareChunk C inodeId storageMode fileOffset plaintext
    let next ← Prog.ofExcept (checkedAddI64 fileOffset prepared.plainSize "file offset")
    let tail ← prepareChunks inodeId storageMode next rest
    pure (prepared :: tail)

/-! ## Writing the revision -/

/-- The reason for a conflict copy, if the lineage of the expected parent asks for one. -/
def conflictReason : Db.RevisionLineageRelation → Option String
  | .same => none
  | .candidateDescendsFromCurrent => none
  | .currentDescendsFromCandidate => some "stale_local_base"
  | .parallel => some "parallel_local_edit"

/-- The parent of the new revision, after a conflict copy of the current one where the expected
parent does not descend from it. -/
def resolveParent (current : Option FileRevisionRecord) (deviceId : Option String)
    (deviceName : String) : Option ℤ → FileProg P PackerError (Option ℤ × Option String)
  | none => pure (current.map (·.revisionId), none)
  | some expected =>
    match current with
    | none => pure (some expected, none)
    | some current => do
      let lineage ← Db.classifyRevisionLineage expected current.revisionId
      match conflictReason lineage with
      | none => pure (some expected, none)
      | some reason =>
        let copy ← (Db.materializeConflictCopyFromRevision current.revisionId deviceId deviceName
          reason).mapError .db
        pure (some expected, some copy.name)

/-- The row of `packs` of a prepared pack. -/
def packRecord (pack : PreparedPack) : PackRecord :=
  { packId := pack.packId
    chunkId := pack.chunkId.bytes
    plaintextHash := some pack.plaintextHash
    storageMode := pack.storageMode
    encryptionVersion := 2
    ecScheme := storageModeScheme pack.storageMode
    logicalSize := pack.plainSize
    cipherSize := pack.cipherSize
    shardSize := pack.shardSize
    nonce := pack.nonce.bytes
    gcmTag := pack.gcmTag.bytes
    status := if pack.storageMode = .localOnly then .healthy else .uploading }

/-- The row of `pack_shards` of a prepared shard. -/
def shardRecord (packId : String) (shard : PreparedShard) : PackShardRecord :=
  { packId
    shardIndex := shard.shardIndex
    shardRole := shard.shardRole
    provider := shard.provider
    objectKey := shard.objectKey
    size := shard.size
    checksum := shard.checksum
    status := .pending }

/-- Write the rows of the shards of a pack. -/
def registerShards {ε : Type} (packId : String) : List PreparedShard → FileProg P ε Unit
  | [] => pure ()
  | shard :: rest => do
    Db.registerPackShard (shardRecord packId shard)
    registerShards packId rest

/-- Bind a pack to its DEK, if one was drawn for it. -/
def bindDek {ε : Type} (packId : String) : Option ℤ → FileProg P ε Unit
  | some dekId => Db.setPackDek packId dekId
  | none => pure ()

/-- Write the rows of a new pack. -/
def storePack (pack : PreparedPack) : FileProg P PackerError Unit := do
  Db.createPack (packRecord pack)
  bindDek pack.packId pack.dekId
  registerShards pack.packId pack.shards
  if pack.storageMode ≠ .localOnly then Db.queuePackForUpload pack.packId
  else pure ()

/-- Write one chunk of the revision, and its pack unless it is reused. -/
def writeChunk (revisionId : ℤ) (pack : PreparedPack) : FileProg P PackerError Unit := do
  let _ ← Db.registerChunk revisionId pack.chunkId.bytes pack.fileOffset pack.plainSize
  Db.linkChunkToPack pack.chunkId.bytes pack.packId 0 pack.manifestSize
  if pack.isDeduplicated then pure () else storePack pack

/-- The loop over the prepared packs. -/
def writeChunks (revisionId : ℤ) : List PreparedPack → FileProg P PackerError Unit
  | [] => pure ()
  | pack :: rest => do
    writeChunk revisionId pack
    writeChunks revisionId rest

/-- The bytes of the prepared chunks. -/
def logicalSizeOf (prepared : List PreparedPack) : ℕ :=
  (prepared.map (·.plainSize.toNat)).sum

/-- The bytes of their manifests. -/
def encryptedSizeOf (prepared : List PreparedPack) : ℤ := (prepared.map (·.manifestSize)).sum

/-- The part of the writer that comes before the new revision. -/
def preparePack (config : PackerConfig) (inodeId : ℤ) (source : Bytes)
    (expectedParentRevisionId : Option ℤ) :
    FileProg P PackerError (List PreparedPack × Option String × Option ℤ × Option String) := do
  let storageMode ← Db.getStorageModeForInode inodeId
  let prepared ← prepareChunks C inodeId storageMode 0
    (piecesOf config.chunkSize source.length source)
  let localDevice ← onVault .vault Db.getLocalDeviceIdentity
  let deviceId := localDevice.map (·.deviceId)
  let deviceName := (localDevice.map (·.deviceName)).getD "Unknown Device"
  let current ← Db.getCurrentFileRevision inodeId
  let (parent, copyName) ← resolveParent current deviceId deviceName expectedParentRevisionId
  pure (prepared, deviceId, parent, copyName)

def packFileWithExpectedParent (config : PackerConfig) (inodeId : ℤ) (source : Bytes)
    (expectedParentRevisionId : Option ℤ) : FileProg P PackerError PackResult := do
  let (prepared, deviceId, parent, copyName) ←
    preparePack C config inodeId source expectedParentRevisionId
  let logicalSize ← Prog.ofExcept (toI64 (logicalSizeOf prepared) "logical size")
  let revisionId ← Db.createFileRevision inodeId logicalSize none deviceId parent "local_write" none
  writeChunks revisionId prepared
  pure
    { revisionId
      packIds := prepared.map (·.packId)
      chunkCount := prepared.length
      logicalSize
      encryptedSize := encryptedSizeOf prepared
      conflictCopyName := copyName }

def packFile (config : PackerConfig) (inodeId : ℤ) (source : Bytes) :
    FileProg P PackerError PackResult :=
  packFileWithExpectedParent C config inodeId source none

end Packer

end OmniDrive
