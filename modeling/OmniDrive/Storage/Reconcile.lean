import OmniDrive.Storage.RepairBatch

/-!
# Packs in another storage mode

A reconciliation loads the ciphertext of a pack, writes it as a record of version 1 to a new pack in
the storage mode that the policies ask for, uploads its shards and lets the chunk point at it. The
repair worker takes the packs with the wrong storage mode first and the degraded ones after them.
-/

namespace OmniDrive

open StatementProgram Tables ByteFields Packer

variable {P : Primitives}

inductive ReconcileError where
  | repair (err : RepairError)
  | packer (err : PackerError)
  | storedLength (field : String)
  | io
  deriving DecidableEq, Repr

namespace RepairWorker

open RepairDb

variable (C : ChunkPrimitives P) (net : RepairNetwork)

/-! ## Loading -/

/-- The ciphertext from the completed shards. -/
def loadEcCiphertext (pack : PackRecord) : FileProg P RepairError Bytes := do
  let shards ← Db.getPackShards pack.packId
  let shardLen ← Prog.ofExcept (repairUsize pack.shardSize "pack shard size")
  let completed := shards.filter (·.status = .completed)
  let slots ← downloadCompleted C net pack.packId shardLen (List.replicate totalShards none)
    completed
  if completed.length < dataShards then .fail (.invalidShardLayout pack.packId)
  else
    let all ← Prog.ofOption .erasureCoding (C.rsReconstruct slots)
    let cipherSize ← Prog.ofExcept (repairUsize pack.cipherSize "cipher size")
    pure ((all.take dataShards).flatten.take cipherSize)

/-- The ciphertext from the first completed shard. -/
def loadSingleReplicaCiphertext (pack : PackRecord) : FileProg P RepairError Bytes := do
  let shards ← Db.getPackShards pack.packId
  let shard ← Prog.ofOption (.missingShardRecord "single replica shard missing")
    (shards.find? (·.status = .completed))
  if net.configured shard.provider = false then
    .fail (.invalidEnv "single replica provider not configured")
  else downloadShard C net shard

/-- The ciphertext from the manifest in the spool. -/
def loadLocalOnlyCiphertext (pack : PackRecord) : FileProg P ReconcileError Bytes := do
  let manifest ← Prog.query fun w => w.spool.manifests pack.packId
  let bytes ← Prog.ofOption .io manifest
  let cipherSize ← Prog.ofExcept ((repairUsize pack.cipherSize "cipher size").mapError .repair)
  let cipherEnd := ChunkRecordPrefix.size + cipherSize
  if 2 ^ 64 ≤ cipherEnd then .fail (.repair (.numericOverflow "cipher range"))
  else if bytes.length < cipherEnd then .fail (.repair (.invalidShardLayout pack.packId))
  else pure (slice ChunkRecordPrefix.size cipherEnd bytes)

def loadCiphertextForPack (pack : PackRecord) : FileProg P ReconcileError Bytes :=
  match pack.storageMode with
  | .ec21 => (loadEcCiphertext C net pack).mapError .repair
  | .singleReplica => (loadSingleReplicaCiphertext C net pack).mapError .repair
  | .localOnly => loadLocalOnlyCiphertext pack

/-! ## The new pack -/

/-- `vec_to_array_32`, `vec_to_array_12` and `vec_to_array_16`. -/
def storedArray (n : ℕ) (bytes : Bytes) (field : String) : Except ReconcileError (FixedBytes n) :=
  match FixedBytes.tryFrom n bytes with
  | some b => .ok b
  | none => .error (.storedLength field)

/-- The row of the new pack. -/
def copyRecord (pack : PackRecord) (desiredMode : StorageMode) (packId : String) (shardSize : ℤ) :
    PackRecord :=
  { pack with
    packId
    plaintextHash := some (pack.plaintextHash.getD "")
    storageMode := desiredMode
    encryptionVersion := 1
    ecScheme := storageModeScheme desiredMode
    shardSize
    status := if desiredMode = .localOnly then .healthy else .uploading }

/-- Create the new pack, and the rows of its shards unless there are some. -/
def createCopy {ε : Type} (copy : PackRecord) (prepared : List PreparedShard) :
    FileProg P ε Unit := do
  Db.createPack copy
  if copy.storageMode = .localOnly then pure ()
  else
    let registered ← Db.getPackShards copy.packId
    if registered.isEmpty then registerShards copy.packId prepared else pure ()

/-- Derive the status of the new pack from its shards. -/
def settleCopy {ε : Type} (copy : PackRecord) : FileProg P ε PackStatus := do
  let summary ← Db.summarizePackShards copy.packId
  let status := Db.resolvePackStatusForMode copy.storageMode summary
  Db.updatePackStatus copy.packId status
  pure status

/-- Upload one shard of the new pack, or queue it again. -/
def uploadPending (copy : PackRecord) (shard : PackShardRecord) :
    FileProg P ReconcileError Unit := do
  if net.configured shard.provider = false then
    .fail (.repair (.invalidEnv "reconcile provider not configured"))
  else
    let index ← Prog.ofExcept
      ((repairUsize shard.shardIndex "reconcile shard index").mapError .repair)
    let file ← Prog.query fun w => w.spool.shards copy.packId index
    let bytes ← Prog.ofOption .io file
    Db.markPackShardInProgress copy.packId shard.shardIndex
    if net.accepts shard.provider shard.objectKey then
      (uploadShard shard index bytes).mapError .repair
      Db.markPackShardCompleted copy.packId shard.shardIndex
    else
      Db.requeuePackShard copy.packId shard.shardIndex "put_object failed"
      let _ ← settleCopy copy
      .fail (.repair (.provider shard.provider "put_object"))

/-- The loop over the shards that are not completed. -/
def uploadPendingShards (copy : PackRecord) :
    List PackShardRecord → FileProg P ReconcileError Unit
  | [] => pure ()
  | shard :: rest => do
    uploadPending net copy shard
    uploadPendingShards copy rest

/-- Complete the new pack, and let the chunk point at it once it is healthy. -/
def swapIn (copy : PackRecord) (manifestSize : ℤ) : FileProg P ReconcileError Unit := do
  if copy.storageMode = .localOnly then
    Db.updatePackStatus copy.packId .healthy
    Db.linkChunkToPack copy.chunkId copy.packId 0 manifestSize
  else
    let pending ← Db.getIncompletePackShards copy.packId
    uploadPendingShards net copy pending
    let status ← settleCopy copy
    if status = .healthy then Db.linkChunkToPack copy.chunkId copy.packId 0 manifestSize
    else pure ()

/-- Write the ciphertext of a pack to a new pack. -/
def copyPack (pack : PackRecord) (desiredMode : StorageMode) (ciphertext : Bytes) :
    FileProg P ReconcileError Unit := do
  let chunkId ← Prog.ofExcept (storedArray 32 pack.chunkId "chunk_id")
  let nonce ← Prog.ofExcept (storedArray 12 pack.nonce "nonce")
  let gcmTag ← Prog.ofExcept (storedArray 16 pack.gcmTag "gcm_tag")
  let logicalSize ← Prog.ofExcept
    ((repairUsize pack.logicalSize "logical size").mapError .repair)
  let manifestBytes := buildManifestBytes chunkId nonce ciphertext gcmTag logicalSize
  let packId := computePackId C desiredMode manifestBytes
  writeManifest packId manifestBytes
  let prepared ← (buildShards C packId ciphertext desiredMode).mapError .packer
  let shardSize := (prepared.head?.map (·.size)).getD 0
  let manifestSize ← Prog.ofExcept ((toI64 manifestBytes.length "manifest size").mapError .packer)
  let copy := copyRecord pack desiredMode packId shardSize
  createCopy copy prepared
  swapIn net copy manifestSize

def reconcilePackMode (pack : PackRecord) : FileProg P ReconcileError Unit := do
  let desiredMode ← Db.getDesiredStorageModeForPack pack.packId
  if pack.storageMode = desiredMode then pure ()
  else
    let ciphertext ← loadCiphertextForPack C net pack
    copyPack C net pack desiredMode ciphertext

/-! ## The worker -/

/-- The first statement of the worker: uploads that were cut off are pending again. -/
def resetInProgressPackShards {ε : Type} : FileProg P ε Unit :=
  writeFiles fun db =>
    { db with
      packShards := updateWhere (·.status = .inProgress) (fun s => { s with status := .pending })
        db.packShards }

/-- `REPAIR_MAX_RETRY_DELAY` in milliseconds. -/
def repairMaxRetryDelayMs : ℤ := 3600000

variable (retryDelayMs : ℤ) {ε : Type}

def deferPack (packId : String) : RepairProg P ε ℤ :=
  deferPackRepair packId retryDelayMs repairMaxRetryDelayMs

/-- What the worker notes about a pack that it has handled. -/
def noteOutcome {γ : Type} (packId : String) : Except γ Unit → RepairProg P ε Unit
  | .ok () => clearPackRepairBackoff packId
  | .error _ => do
    let _ ← deferPack retryDelayMs packId
    pure ()

/-- One pass of the loop of the worker. -/
def workerPass : RepairProg P ε Unit := do
  match ← getNextPackRequiringReconciliation with
  | some pack =>
    let outcome ← (onRepairFiles (reconcilePackMode C net pack)).attempt
    noteOutcome retryDelayMs pack.packId outcome
  | none =>
    match ← getNextDegradedPack with
    | some pack =>
      if ← packRequiresHealthy pack.packId then
        let outcome ← (onRepairFiles (repairPack C net pack)).attempt
        noteOutcome retryDelayMs pack.packId outcome
      else
        let _ ← deferPack retryDelayMs pack.packId
        pure ()
    | none => pure ()

end RepairWorker

end OmniDrive
