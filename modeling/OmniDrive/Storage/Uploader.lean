import OmniDrive.Storage.RevisionOutcome

/-!
# Uploading packs

The upload worker stores the shards of a pack at their providers, marks them in the tables and
clears the spool of a pack that is stored. Which uploads go through is up to the environment.
-/

namespace OmniDrive

open StatementProgram Tables ByteFields

variable {P : Primitives}

/-- What becomes of one shard: it is stored, tried again later, perhaps for the last time, given up,
or the whole job waits. -/
inductive ShardAnswer where
  | stored
  | retried (message : String) (permanent : Bool)
  | failed (message : String)
  | suspended (reason : String)
  deriving DecidableEq, Repr

inductive JobProcessOutcome where
  | completed
  | pendingRetry
  | failed
  deriving DecidableEq, Repr

inductive UploaderError where
  | invalidEnv (name : String)
  deriving DecidableEq, Repr

namespace Uploader

/-- Store the local file of a shard at its provider. -/
def putShardObject {ε : Type} (shard : PackShardRecord) : FileProg P ε Unit :=
  Prog.exec fun w =>
    match w.spool.shards shard.packId shard.shardIndex.toNat with
    | some bytes =>
      { w with
        objects := Function.update w.objects shard.provider
          (Function.update (w.objects shard.provider) shard.objectKey (some bytes)) }
    | none => w

/-- Try a shard again later, unless it failed for the last time. -/
def retryShard {ε : Type} (shard : PackShardRecord) (message : String) (permanent : Bool) :
    FileProg P ε Unit := do
  Db.requeuePackShard shard.packId shard.shardIndex message
  if permanent then Db.markPackShardPermanentlyFailed shard.packId shard.shardIndex message
  else pure ()

/-- Store a shard, unless its local file is gone. -/
def storeShard {ε : Type} (shard : PackShardRecord) : FileProg P ε Unit := do
  Db.markPackShardInProgress shard.packId shard.shardIndex
  let file ← Prog.query fun w => w.spool.shards shard.packId shard.shardIndex.toNat
  if file.isNone then
    Db.markPackShardFailed shard.packId shard.shardIndex "local shard missing"
  else
    putShardObject shard
    Db.markPackShardCompleted shard.packId shard.shardIndex

/-- One shard of a job; the answer is whether the job goes on. -/
def uploadShard (answer : PackShardRecord → ShardAnswer) (shard : PackShardRecord) :
    FileProg P UploaderError Bool :=
  match answer shard with
  | .retried message permanent => do
    retryShard shard message permanent
    pure true
  | .failed message => do
    Db.markPackShardFailed shard.packId shard.shardIndex message
    pure true
  | .suspended _ => pure false
  | .stored => do
    storeShard shard
    pure true

/-- The loop over the pending shards. -/
def uploadShards (answer : PackShardRecord → ShardAnswer) :
    List PackShardRecord → FileProg P UploaderError Bool
  | [] => pure true
  | shard :: rest => do
    if ← uploadShard answer shard then uploadShards answer rest else pure false

/-- Remove one shard file. -/
def deleteShardFile {ε : Type} (packId : String) (index : ℕ) : FileProg P ε Unit :=
  Prog.exec fun w =>
    { w with
      spool :=
        { w.spool with
          shards := Function.update w.spool.shards packId
            (Function.update (w.spool.shards packId) index none) } }

/-- Remove the manifest of a pack. -/
def deleteManifest {ε : Type} (packId : String) : FileProg P ε Unit :=
  Prog.exec fun w =>
    { w with
      spool := { w.spool with manifests := Function.update w.spool.manifests packId none } }

def cleanupRemoteBackedPackSpool {ε : Type} (packId : String) : FileProg P ε Unit := do
  deleteManifest packId
  deleteShardFile packId 0
  deleteShardFile packId 1
  deleteShardFile packId 2

/-- The outcome of a job by the status of its pack. -/
def outcomeOf : PackStatus → JobProcessOutcome
  | .healthy => .completed
  | .degraded => .completed
  | .uploading => .pendingRetry
  | .unreadable => .failed

/-- Derive the status of a pack from its shards. -/
def settlePackStatus {ε : Type} (pack : PackRecord) : FileProg P ε PackStatus := do
  let summary ← Db.summarizePackShards pack.packId
  let status := Db.resolvePackStatusForMode pack.storageMode summary
  Db.updatePackStatus pack.packId status
  pure status

/-- Clear the spool of a pack whose status says that it can be read from its providers. -/
def cleanupAfter {ε : Type} (pack : PackRecord) (status : PackStatus) : FileProg P ε Unit :=
  if (status = .healthy ∨ status = .degraded) ∧ pack.storageMode ≠ .localOnly then
    cleanupRemoteBackedPackSpool pack.packId
  else pure ()

def processJob (answer : PackShardRecord → ShardAnswer) (packId : String) :
    FileProg P UploaderError JobProcessOutcome := do
  let pack ← Db.getPack packId
  let pack ← Prog.ofOption (.invalidEnv "upload_jobs.pack_id") pack
  let pending ← Db.getIncompletePackShards packId
  if pending.isEmpty then
    let status ← settlePackStatus pack
    pure (outcomeOf status)
  else if ← uploadShards answer pending then
    let status ← settlePackStatus pack
    cleanupAfter pack status
    pure (outcomeOf status)
  else pure .pendingRetry

end Uploader

/-! ## Uploads keep the store -/

open Uploader

variable {C : ChunkPrimitives P} {known : Bytes → Prop} {cur vaultKey : P.Key}
  {all chunks : List StoredChunk} {ε : Type}

/-- A shard whose object has the name of the shard. -/
def NamesObject (shard : PackShardRecord) : Prop :=
  shard.objectKey = ⟨shard.packId, shard.shardIndex.toNat⟩

/-- The prepared shards of a pack name their objects. -/
theorem namesObject_prepared {mode : StorageMode} {packId : String} {index : ℕ}
    {bytes : List Bytes} {shard : PreparedShard}
    (h : shard ∈ preparedShardsFrom C mode packId index bytes) :
    NamesObject (Packer.shardRecord packId shard) := by
  induction bytes generalizing index with
  | nil => cases h
  | cons b rest ih =>
    rcases List.mem_cons.mp h with hhead | htail
    · rw [hhead]
      rfl
    · exact ih htail

/-- Every row of `pack_shards` names its object. -/
theorem namesObject_of_mem {db : FileDb} (h : TablesInv C chunks db) {shard : PackShardRecord}
    (hshard : shard ∈ db.packShards) : NamesObject shard := by
  have hmem : shard.core ∈ db.packShards.map PackShardRecord.core := List.mem_map_of_mem hshard
  rw [h.shards] at hmem
  obtain ⟨c, -, hrow⟩ := List.mem_flatMap.mp hmem
  obtain ⟨row, hrow, hcore⟩ := List.mem_map.mp hrow
  obtain ⟨prepared, hprepared, hshardRow⟩ := List.mem_map.mp hrow
  have hnames := namesObject_prepared hprepared
  rw [hshardRow] at hnames
  have hkey : row.objectKey = shard.objectKey := congrArg (·.objectKey) hcore
  have hpack : row.packId = shard.packId := congrArg (·.packId) hcore
  have hindex : row.shardIndex = shard.shardIndex := congrArg (·.shardIndex) hcore
  rw [NamesObject, ← hkey, ← hpack, ← hindex]
  exact hnames

/-- Tables with the same rows up to statuses, and the same revisions, keep the store. -/
theorem StoreInv.withTables {w : FileWorld P} (h : StoreInv C known cur vaultKey all chunks w)
    {db : FileDb} (htables : TablesInv C chunks db) (hfileRevisions : db.fileRevisions =
      w.db.fileRevisions) (hsequence : db.revisionSequence = w.db.revisionSequence)
    (hrefs : db.chunkRefs = w.db.chunkRefs) :
    StoreInv C known cur vaultKey all chunks (w.withDb db) where
  files := h.files.withDb db
  tables := htables
  revisions := by
    constructor
    · rw [FileWorld.db_withDb, hfileRevisions, hsequence]
      exact h.revisions.revisionIds
    · rw [FileWorld.db_withDb, hrefs, hsequence]
      exact h.revisions.refIds
    · rw [FileWorld.db_withDb, hfileRevisions]
      exact h.revisions.nodup
    · intro fr hfr
      rw [FileWorld.db_withDb, hfileRevisions] at hfr
      rw [FileWorld.db_withDb, refRows, hrefs]
      exact h.revisions.described fr hfr
  subset := h.subset
  nodup := h.nodup
  fits := h.fits

/-- A store in order with the same vault, the same files and the same references as another. -/
structure UploadKept (C : ChunkPrimitives P) (known : Bytes → Prop) (cur vaultKey : P.Key)
    (all chunks : List StoredChunk) (start w : FileWorld P) : Prop where
  store : StoreInv C known cur vaultKey all chunks w
  vault : w.vault = start.vault
  inodeSequence : w.db.inodeSequence = start.db.inodeSequence
  fileRevisions : w.db.fileRevisions = start.db.fileRevisions
  chunkRefs : w.db.chunkRefs = start.db.chunkRefs

variable {start : FileWorld P}

/-- A change of what uploads note about a shard keeps the store. -/
theorem keeps_updateShard (packId : String) (shardIndex : ℤ)
    (f : PackShardRecord → PackShardRecord) (hf : ∀ s, (f s).core = s.core) :
    (writeFiles (Db.updateShard packId shardIndex f) : FileProg P ε Unit).Keeps
      (UploadKept C known cur vaultKey all chunks start) := by
  apply Prog.Keeps.exec
  intro w h
  have hshards : (Db.updateShard packId shardIndex f w.db).packShards.map PackShardRecord.core =
      w.db.packShards.map PackShardRecord.core := map_updateWhere hf _
  have htables := h.store.tables
  have hstore : StoreInv C known cur vaultKey all chunks
      (w.withDb (Db.updateShard packId shardIndex f w.db)) :=
    h.store.withTables ⟨htables.packs, htables.locations, htables.bindings,
      hshards.trans htables.shards⟩ rfl rfl rfl
  exact ⟨hstore, h.vault, h.inodeSequence, h.fileRevisions, h.chunkRefs⟩

/-- So does a change of the status of a pack. -/
theorem keeps_updatePackStatus (packId : String) (status : PackStatus) :
    (Db.updatePackStatus packId status : FileProg P ε Unit).Keeps
      (UploadKept C known cur vaultKey all chunks start) := by
  apply Prog.Keeps.exec
  intro w h
  have hpacks : (updateWhere (·.packId = packId) (fun p => { p with status }) w.db.packs).map
      PackRecord.core = w.db.packs.map PackRecord.core := by
    apply map_updateWhere
    intro pack
    rfl
  have htables := h.store.tables
  have hstore : StoreInv C known cur vaultKey all chunks
      (w.withDb
        { w.db with
          packs := updateWhere (·.packId = packId) (fun p => { p with status }) w.db.packs }) :=
    h.store.withTables ⟨hpacks.trans htables.packs, htables.locations, htables.bindings,
      htables.shards⟩ rfl rfl rfl
  exact ⟨hstore, h.vault, h.inodeSequence, h.fileRevisions, h.chunkRefs⟩

/-- The stored object is the local file of the shard. -/
theorem keeps_putShardObject {shard : PackShardRecord} (hnames : NamesObject shard) :
    (putShardObject shard : FileProg P ε Unit).Keeps
      (UploadKept C known cur vaultKey all chunks start) := by
  apply Prog.Keeps.exec
  intro w hkept
  have h := hkept.store
  rcases hfile : w.spool.shards shard.packId shard.shardIndex.toNat with _ | bytes
  · exact hkept
  refine ⟨?_, hkept.vault, hkept.inodeSequence, hkept.fileRevisions, hkept.chunkRefs⟩
  refine ⟨⟨h.files.vault, h.files.drawn, h.files.distinct, h.files.known, h.files.deks,
    h.files.manifests, h.files.shards, fun provider key b hb => ?_, h.files.downloads⟩, h.tables,
    h.revisions, h.subset, h.nodup, h.fits⟩
  simp only [Function.update_apply] at hb
  split at hb
  · rename_i hprovider
    rw [Function.update_apply] at hb
    split at hb
    · rename_i hkey
      obtain ⟨c, hc, hpack, hbytes⟩ := h.files.shards _ _ _ hfile
      rw [hkey, hnames]
      cases hb
      exact ⟨c, hc, hpack, hbytes⟩
    · exact h.files.objects _ key b (hprovider ▸ hb)
  · exact h.files.objects provider key b hb

/-- A removed shard file is no matter. -/
theorem keeps_deleteShardFile (packId : String) (index : ℕ) :
    (deleteShardFile packId index : FileProg P ε Unit).Keeps
      (UploadKept C known cur vaultKey all chunks start) := by
  apply Prog.Keeps.exec
  intro w hkept
  refine ⟨?_, hkept.vault, hkept.inodeSequence, hkept.fileRevisions, hkept.chunkRefs⟩
  have h := hkept.store
  refine ⟨⟨h.files.vault, h.files.drawn, h.files.distinct, h.files.known, h.files.deks,
    h.files.manifests, fun id i b hb => ?_, h.files.objects, h.files.downloads⟩, h.tables,
    h.revisions, h.subset, h.nodup, h.fits⟩
  simp only [Function.update_apply] at hb
  split at hb
  · rename_i hid
    rw [Function.update_apply] at hb
    split at hb
    · cases hb
    · exact h.files.shards id i b (hid ▸ hb)
  · exact h.files.shards id i b hb

/-- The manifest of a pack that is not local is no matter either. -/
theorem keeps_deleteManifest {packId : String}
    (hremote : ∀ c ∈ all, c.storageMode = .localOnly → c.packId C ≠ packId) :
    (deleteManifest packId : FileProg P ε Unit).Keeps
      (UploadKept C known cur vaultKey all chunks start) := by
  apply Prog.Keeps.exec
  intro w hkept
  refine ⟨?_, hkept.vault, hkept.inodeSequence, hkept.fileRevisions, hkept.chunkRefs⟩
  have h := hkept.store
  refine ⟨⟨h.files.vault, h.files.drawn, h.files.distinct, h.files.known, h.files.deks,
    fun c hc hlocal => ?_, h.files.shards, h.files.objects, h.files.downloads⟩, h.tables,
    h.revisions, h.subset, h.nodup, h.fits⟩
  show Function.update w.spool.manifests packId none (c.packId C) = some (c.manifest C)
  rw [Function.update_of_ne (hremote c hc hlocal)]
  exact h.files.manifests c hc hlocal

/-- One shard of a job keeps the store. -/
theorem keeps_uploadShard (answer : PackShardRecord → ShardAnswer) {shard : PackShardRecord}
    (hnames : NamesObject shard) : (uploadShard answer shard : FileProg P _ _).Keeps
      (UploadKept C known cur vaultKey all chunks start) := by
  have hupdate : ∀ f : PackShardRecord → PackShardRecord, (∀ s, (f s).core = s.core) →
      (writeFiles (Db.updateShard shard.packId shard.shardIndex f) : FileProg P UploaderError
        Unit).Keeps (UploadKept C known cur vaultKey all chunks start) :=
    fun f hf => keeps_updateShard _ _ f hf
  have hfailed : ∀ message, (Db.markPackShardFailed shard.packId shard.shardIndex message :
      FileProg P UploaderError Unit).Keeps (UploadKept C known cur vaultKey all chunks start) :=
    fun message => hupdate _ fun _ => rfl
  rw [uploadShard]
  cases answer shard with
  | retried message permanent =>
    apply Prog.Keeps.bind
    · apply Prog.Keeps.bind
      · exact hupdate (fun s => { s with
          status := .pending, attempts := s.attempts + 1, lastError := some message }) fun _ => rfl
      · intro _
        cases permanent with
        | true => exact hupdate (fun s => { s with
            status := .permanentlyFailed, lastError := some message }) fun _ => rfl
        | false => trivial
    · exact fun _ => trivial
  | failed message => exact (hfailed message).bind fun _ => trivial
  | suspended reason => trivial
  | stored =>
    apply Prog.Keeps.bind
    · apply Prog.Keeps.bind
      · exact hupdate (fun s => { s with status := .inProgress, lastError := none }) fun _ => rfl
      · intro _
        apply (Prog.Keeps.query _).bind
        intro file
        split
        · exact hfailed _
        · apply (keeps_putShardObject hnames).bind
          intro _
          exact hupdate (fun s => { s with status := .completed, lastError := none }) fun _ => rfl
    · exact fun _ => trivial

/-- The shards of a job keep the store. -/
theorem keeps_uploadShards (answer : PackShardRecord → ShardAnswer)
    {shards : List PackShardRecord} (hnames : ∀ s ∈ shards, NamesObject s) :
    (uploadShards answer shards : FileProg P _ _).Keeps
      (UploadKept C known cur vaultKey all chunks start) := by
  induction shards with
  | nil => trivial
  | cons shard rest ih =>
    apply (keeps_uploadShard answer (hnames shard List.mem_cons_self)).bind
    intro goes
    split
    · exact ih fun s hs => hnames s (List.mem_cons_of_mem _ hs)
    · trivial

/-- A whole job keeps the store. -/
theorem keeps_processJob (ideal : C.Ideal) (answer : PackShardRecord → ShardAnswer)
    (packId : String) : (processJob answer packId : FileProg P _ _).Keeps
      (UploadKept C known cur vaultKey all chunks start) := by
  rw [processJob]
  apply Prog.Keeps.query_bind
  intro w h
  rcases hpack : Db.packOf packId w.db with _ | pack
  · trivial
  have hid : pack.packId = packId := by
    have hfound := List.find?_some hpack
    simpa using hfound
  have hsettle : (settlePackStatus pack : FileProg P UploaderError _).Keeps
      (UploadKept C known cur vaultKey all chunks start) := by
    apply (Prog.Keeps.query _).bind
    intro summary
    exact (keeps_updatePackStatus _ _).bind fun _ => trivial
  have hcleanup : ∀ status, (cleanupAfter pack status : FileProg P UploaderError _).Keeps
      (UploadKept C known cur vaultKey all chunks start) := by
    intro status
    rw [cleanupAfter]
    split
    · rename_i hcond
      have hremote : ∀ c ∈ all, c.storageMode = .localOnly → c.packId C ≠ pack.packId := by
        intro c _ hlocal heq
        obtain ⟨c', -, hcore⟩ := h.store.tables.exists_chunk (List.mem_of_find?_eq_some hpack)
        have hpackId : pack.packId = c'.packId C := congrArg (·.packId) hcore
        have hmode : pack.storageMode = c'.storageMode := congrArg (·.storageMode) hcore
        have hsame := (manifest_of_packId_eq ideal (heq.trans hpackId)).1
        exact hcond.2 (hmode.trans (hsame.symm.trans hlocal))
      apply (keeps_deleteManifest hremote).bind
      intro _
      apply (keeps_deleteShardFile _ _).bind
      intro _
      apply (keeps_deleteShardFile _ _).bind
      intro _
      exact keeps_deleteShardFile _ _
    · trivial
  rw [Prog.ofOption_some, Prog.ret_bind]
  apply Prog.Keeps.query_bind
  intro w' h'
  split
  · exact hsettle.bind fun _ => trivial
  · apply Prog.Keeps.bind
    · apply keeps_uploadShards
      intro shard hshard
      have hmem := List.mem_of_mem_filter hshard
      rw [Db.shardsOf, mem_orderBy] at hmem
      exact namesObject_of_mem h'.store.tables (List.mem_of_mem_filter hmem)
    · intro goes
      split
      · apply hsettle.bind
        intro status
        exact (hcleanup status).bind fun _ => trivial
      · trivial

/-! ## Uploads and the vault -/

section Vault

variable (I : VaultWorld P → Prop)

/-- One shard of a job does not touch the vault. -/
theorem keeps_vault_uploadShard (answer : PackShardRecord → ShardAnswer)
    (shard : PackShardRecord) :
    (uploadShard (P := P) answer shard).Keeps fun w => I w.vault := by
  have hwrite : ∀ f : FileDb → FileDb, (writeFiles f : FileProg P UploaderError Unit).Keeps
      fun w => I w.vault := fun f => Prog.Keeps.exec fun _ h => h
  rw [uploadShard]
  cases answer shard with
  | retried message permanent =>
    apply Prog.Keeps.bind
    · apply (hwrite _).bind
      intro _
      split
      · exact hwrite _
      · trivial
    · exact fun _ => trivial
  | failed message => exact (hwrite _).bind fun _ => trivial
  | suspended reason => trivial
  | stored =>
    apply Prog.Keeps.bind
    · apply (hwrite _).bind
      intro _
      apply (Prog.Keeps.query _).bind
      intro file
      split
      · exact hwrite _
      · have hput : (putShardObject shard : FileProg P UploaderError Unit).Keeps
            fun w => I w.vault := by
          apply Prog.Keeps.exec
          intro w h
          split
          · exact h
          · exact h
        exact hput.bind fun _ => hwrite _
    · exact fun _ => trivial

/-- Nor do the shards of a job. -/
theorem keeps_vault_uploadShards (answer : PackShardRecord → ShardAnswer)
    (shards : List PackShardRecord) :
    (uploadShards (P := P) answer shards).Keeps fun w => I w.vault := by
  induction shards with
  | nil => trivial
  | cons shard rest ih =>
    apply (keeps_vault_uploadShard I answer shard).bind
    intro goes
    split
    · exact ih
    · trivial

/-- Nor does a whole job. -/
theorem keeps_vault_processJob (answer : PackShardRecord → ShardAnswer) (packId : String) :
    (processJob (P := P) answer packId).Keeps fun w => I w.vault := by
  have hsettle : ∀ pack : PackRecord, (settlePackStatus pack : FileProg P UploaderError _).Keeps
      fun w => I w.vault := by
    intro pack
    apply (Prog.Keeps.query _).bind
    intro summary
    exact (Prog.Keeps.exec fun _ h => h).bind fun _ => trivial
  have hdelete : ∀ id index, (deleteShardFile id index : FileProg P UploaderError Unit).Keeps
      fun w => I w.vault := fun id index => Prog.Keeps.exec fun _ h => h
  apply (Prog.Keeps.query _).bind
  intro pack
  apply (Prog.Keeps.ofOption _ _).bind
  intro pack
  apply (Prog.Keeps.query _).bind
  intro pending
  split
  · exact (hsettle pack).bind fun _ => trivial
  · apply (keeps_vault_uploadShards I answer pending).bind
    intro goes
    split
    · apply (hsettle pack).bind
      intro status
      apply Prog.Keeps.bind
      · unfold cleanupAfter
        split
        · apply (Prog.Keeps.exec fun _ h => h).bind
          intro _
          apply (hdelete _ _).bind
          intro _
          apply (hdelete _ _).bind
          intro _
          exact hdelete _ _
        · trivial
      · exact fun _ => trivial
    · trivial

end Vault

end OmniDrive
