import OmniDrive.Storage.Database
import OmniDrive.Storage.Erasure

/-!
# Reading a file back

The reader of `downloader/`: the key of a pack, the download of a pack from the local spool or
from enough of its shards, and the restoration of a whole file.
-/

namespace OmniDrive

open StatementProgram Tables

variable {P : Primitives} {ε : Type}

namespace VaultKeyStore

/-- The DEK of a pack by its binding, or by the inode that created it where no binding exists. -/
def dekForPack (packId : String) : FileProg P VaultError P.Key := do
  match ← Db.getPackDekId packId with
  | some dekId =>
    let record ← onVault id (Db.getWrappedDekById dekId)
    let record ← Prog.ofOption (.invalidConfig "pack_deks points at a missing DEK") record
    onVault id (unwrapDekBytes record.wrappedDek)
  | none =>
    let inodeId ← Db.creatingInodeForPack packId
    let inodeId ← Prog.ofOption (.invalidConfig "pack has no referencing revision") inodeId
    let record ← onVault id (Db.getWrappedDek inodeId)
    let record ← Prog.ofOption (.invalidConfig "legacy pack has no DEK for its inode") record
    let dek ← onVault id (unwrapDekBytes record.wrappedDek)
    Db.setPackDek packId record.dekId
    pure dek

end VaultKeyStore

/-- What the network answers: the configured providers, the latency of a probe, the reads that go
through, and the messages of those that do not. -/
structure Network where
  configured : String → Bool
  latency : String → ObjectKey → Option ℕ
  delivers : String → ObjectKey → Bool
  message : String → ObjectKey → String

/-- A file of one of the two spool directories. -/
inductive SpoolFile where
  | manifest (packId : String)
  | download (packId : String)
  deriving DecidableEq, Repr

structure RestoredPackSource where
  packId : String
  providers : List String
  localPath : SpoolFile
  deriving DecidableEq, Repr

namespace Downloader

variable (C : ChunkPrimitives P) (net : Network)

/-- The key of a pack; no key means that the pack is read with the vault key. -/
def packDek (packId : String) : FileProg P ε (Option P.Key) := do
  match ← (VaultKeyStore.dekForPack packId).attempt with
  | .ok dek => pure (some dek)
  | .error (_ : VaultError) => pure none

/-- The content of a file in a spool directory. -/
def spoolFile (file : SpoolFile) (w : FileWorld P) : Option Bytes :=
  match file with
  | .manifest packId => w.spool.manifests packId
  | .download packId => w.downloads packId

def readSpoolFile (file : SpoolFile) : FileProg P DownloaderError Bytes := do
  let bytes ← Prog.query (spoolFile file)
  Prog.ofOption .io bytes

/-! ## Downloading a pack -/

/-- The shards whose providers are configured, the fastest and the completed ones first. -/
def candidates (shards : List PackShardRecord) : List PackShardRecord :=
  orderBy (fun s => toLex ((net.latency s.provider s.objectKey).isNone,
      toLex ((net.latency s.provider s.objectKey).getD 0,
        if s.status = .completed then 0 else 1)))
    (shards.filter fun s => net.configured s.provider)

/-- One request for a shard. -/
def downloadShard (shard : PackShardRecord) : FileProg P ε (Except String Bytes) := do
  let object ← Prog.query fun w => w.objects shard.provider shard.objectKey
  match object with
  | some bytes =>
    pure (if net.delivers shard.provider shard.objectKey then .ok bytes
      else .error (net.message shard.provider shard.objectKey))
  | none => pure (.error (net.message shard.provider shard.objectKey))

/-- The shards fetched so far, where they came from and what failed. -/
structure FetchedShards where
  slots : List (Option Bytes)
  downloadedFrom : List String := []
  errors : List String := []

/-- Take over one fetched shard. -/
def FetchedShards.add (shard : PackShardRecord) (index : ℕ) (bytes : Bytes)
    (fetched : FetchedShards) : FetchedShards :=
  { fetched with
    slots := fetched.slots.set index (some bytes)
    downloadedFrom := fetched.downloadedFrom ++ [shard.provider] }

/-- Note a failed request. -/
def FetchedShards.addError (shard : PackShardRecord) (err : String) (fetched : FetchedShards) :
    FetchedShards :=
  { fetched with
    errors := fetched.errors ++ [s!"{shard.provider} shard {shard.shardIndex}: {err}"] }

/-- Ask for one candidate after the other until there are enough shards. -/
def fetchShards (required : ℕ) :
    FetchedShards → List PackShardRecord → FileProg P DownloaderError FetchedShards
  | fetched, [] => pure fetched
  | fetched, shard :: rest => do
    let index ← Prog.ofExcept (toUsize shard.shardIndex "shard index")
    if fetched.slots.length ≤ index ∨ (fetched.slots.getD index none).isSome then
      fetchShards required fetched rest
    else
      match ← downloadShard net shard with
      | .ok bytes =>
        let fetched := fetched.add shard index bytes
        if required ≤ fetched.slots.countP Option.isSome then pure fetched
        else fetchShards required fetched rest
      | .error err => fetchShards required (fetched.addError shard err) rest

def requiredShards : StorageMode → ℕ
  | .ec21 => dataShards
  | .singleReplica => 1
  | .localOnly => 0

def shardSlots (storageMode : StorageMode) : ℕ :=
  if storageMode = .singleReplica then 1 else totalShards

/-- The ciphertext of a pack from the fetched shards. -/
def ciphertextOf (pack : PackRecord) (slots : List (Option Bytes)) :
    Except DownloaderError Bytes :=
  match pack.storageMode with
  | .ec21 => reconstructCiphertext C pack slots
  | _ =>
    match slots.head?.join with
    | some bytes => .ok bytes
    | none => .error (.invalidPackRecord "single replica missing shard")

/-- Write a downloaded pack to its spool directory. -/
def writeDownload (packId : String) (bytes : Bytes) : FileProg P ε Unit :=
  Prog.exec fun w => { w with downloads := Function.update w.downloads packId (some bytes) }

/-- Fetch a remote pack and rebuild its record. -/
def downloadRemotePack (pack : PackRecord) : FileProg P DownloaderError RestoredPackSource := do
  let shards ← Db.getPackShards pack.packId
  if shards.isEmpty then .fail (.noPackShards pack.packId)
  else if (candidates net shards).isEmpty then
    .fail (.shardDownloadFailed pack.packId
      [s!"no configured providers available for pack {pack.packId}"])
  else
    let required := requiredShards pack.storageMode
    let fetched ← fetchShards net required
      { slots := List.replicate (shardSlots pack.storageMode) none } (candidates net shards)
    if fetched.slots.countP Option.isSome < required then
      .fail (.shardDownloadFailed pack.packId fetched.errors)
    else
      let ciphertext ← Prog.ofExcept (ciphertextOf C pack fetched.slots)
      let manifestBytes ← Prog.ofExcept (buildManifestBytes pack ciphertext)
      writeDownload pack.packId manifestBytes
      pure
        { packId := pack.packId
          providers := fetched.downloadedFrom
          localPath := .download pack.packId }

def downloadPack (packId : String) : FileProg P DownloaderError RestoredPackSource := do
  let pack ← Db.getPack packId
  let pack ← Prog.ofOption (.packMissing packId) pack
  if pack.storageMode = .localOnly then
    let manifest ← Prog.query fun w => w.spool.manifests packId
    if manifest.isNone then .fail (.invalidPackRecord "local-only pack manifest missing")
    else pure { packId, providers := ["local-only"], localPath := .manifest packId }
  else
    let downloaded ← Prog.query fun w => w.downloads packId
    if downloaded.isSome then
      pure { packId, providers := ["spool-cache"], localPath := .download packId }
    else downloadRemotePack C net pack

/-! ## What a download leaves alone -/

section Fixes

variable {κ : Type} {f : FileWorld P → κ}

/-- Fetching shards changes nothing. -/
theorem fixes_fetchShards (required : ℕ) (shards : List PackShardRecord)
    (fetched : FetchedShards) : (fetchShards net required fetched shards).Fixes f := by
  induction shards generalizing fetched with
  | nil => exact Prog.Fixes.pure _
  | cons shard rest ih =>
    have hdownload : (downloadShard net shard : FileProg P DownloaderError _).Fixes f := by
      apply Prog.Fixes.bind (Prog.Fixes.query _)
      intro object
      cases object <;> exact Prog.Fixes.pure _
    apply Prog.Fixes.bind (Prog.Fixes.ofExcept _)
    intro index
    split
    · exact ih fetched
    · apply Prog.Fixes.bind hdownload
      intro answer
      cases answer with
      | error err => exact ih _
      | ok bytes =>
        dsimp only
        split
        · exact Prog.Fixes.pure _
        · exact ih _

/-- A download writes its file and nothing else. -/
theorem fixes_downloadPack
    (hf : ∀ w packId bytes,
      f { w with downloads := Function.update w.downloads packId (some bytes) } = f w)
    (packId : String) : (downloadPack C net packId).Fixes f := by
  apply Prog.Fixes.bind (Prog.Fixes.query _)
  intro pack
  apply Prog.Fixes.bind (Prog.Fixes.ofOption _ _)
  intro pack
  split
  · apply Prog.Fixes.bind (Prog.Fixes.query _)
    intro manifest
    split
    · trivial
    · exact Prog.Fixes.pure _
  · apply Prog.Fixes.bind (Prog.Fixes.query _)
    intro downloaded
    split
    · exact Prog.Fixes.pure _
    · apply Prog.Fixes.bind (Prog.Fixes.query _)
      intro shards
      split
      · trivial
      · split
        · trivial
        · apply Prog.Fixes.bind (fixes_fetchShards net _ _ _)
          intro fetched
          split
          · trivial
          · apply Prog.Fixes.bind (Prog.Fixes.ofExcept _)
            intro ciphertext
            apply Prog.Fixes.bind (Prog.Fixes.ofExcept _)
            intro manifestBytes
            have hwrite : (writeDownload pack.packId manifestBytes :
                FileProg P DownloaderError Unit).Fixes f :=
              Prog.Fixes.exec fun w => hf w pack.packId manifestBytes
            exact hwrite.bind fun _ => Prog.Fixes.pure _

end Fixes

/-! ## Reading chunks -/

/-- The sources of the packs that the current call has already downloaded. -/
abbrev DownloadedPacks := List (String × RestoredPackSource)

/-- The source of a pack, downloading it on first use. -/
def packSource (downloaded : DownloadedPacks) (packId : String) :
    FileProg P DownloaderError (RestoredPackSource × DownloadedPacks) :=
  match downloaded.lookup packId with
  | some existing => pure (existing, downloaded)
  | none => do
    let source ← downloadPack C net packId
    pure (source, (packId, source) :: downloaded)

/-- Read the record of a chunk and decrypt it. -/
def readChunk (vaultKey : P.Key) (downloaded : DownloadedPacks) (chunk : FileChunkLocation) :
    FileProg P DownloaderError (Bytes × DownloadedPacks) := do
  let (source, downloaded) ← packSource C net downloaded chunk.packId
  let packBytes ← readSpoolFile source.localPath
  let dek ← packDek chunk.packId
  let plaintext ← Prog.ofExcept (decryptChunkRecord C packBytes chunk vaultKey dek)
  pure (plaintext, downloaded)

/-- The file that is written, with the offset of the next write. -/
structure OutputFile where
  bytes : Bytes := []
  offset : ℕ := 0
  deriving DecidableEq

/-- Write at the offset; a write behind the end fills the gap with zeros. -/
def OutputFile.writeAll (data : Bytes) (file : OutputFile) : OutputFile :=
  { bytes := file.bytes.take file.offset ++
      (List.replicate (file.offset - file.bytes.length) 0 ++
        (data ++ file.bytes.drop (file.offset + data.length)))
    offset := file.offset + data.length }

def OutputFile.seek (offset : ℕ) (file : OutputFile) : OutputFile := { file with offset }

def toU64 (value : ℤ) (context : String) : Except DownloaderError ℕ :=
  if 0 ≤ value then .ok value.toNat else .error (.numericOverflow context)

/-- Write one decrypted chunk at its place. -/
def writePlaintext (chunk : FileChunkLocation) (plaintext : Bytes) (output : OutputFile) :
    Except DownloaderError OutputFile := do
  let desiredOffset ← toU64 chunk.fileOffset "file offset"
  let output := if output.offset ≠ desiredOffset then output.seek desiredOffset else output
  let output := output.writeAll plaintext
  if 2 ^ 64 ≤ output.offset then .error (.numericOverflow "bytes written") else pure output

/-- The loop over the chunks of the file. -/
def restoreChunks (vaultKey : P.Key) :
    OutputFile → DownloadedPacks → List FileChunkLocation →
      FileProg P DownloaderError (OutputFile × DownloadedPacks)
  | output, downloaded, [] => pure (output, downloaded)
  | output, downloaded, chunk :: rest => do
    let (plaintext, downloaded) ← readChunk C net vaultKey downloaded chunk
    let output ← Prog.ofExcept (writePlaintext chunk plaintext output)
    restoreChunks vaultKey output downloaded rest

structure RestoreResult where
  inodeId : ℤ
  output : Bytes
  bytesWritten : ℕ
  packSources : List RestoredPackSource
  deriving DecidableEq

def restoreFile (inodeId : ℤ) : FileProg P DownloaderError RestoreResult := do
  let vaultKey ← onVault .vault VaultKeyStore.vaultKeyForV1Read
  let chunkLocations ← Db.getFileChunkLocations inodeId
  if chunkLocations.isEmpty then .fail (.noChunksForInode inodeId)
  else
    let (output, downloaded) ← restoreChunks C net vaultKey {} [] chunkLocations
    pure
      { inodeId
        output := output.bytes
        bytesWritten := output.offset
        packSources := downloaded.map Prod.snd }

end Downloader

end OmniDrive
