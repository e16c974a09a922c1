import OmniDrive.Storage.Packer
import OmniDrive.Vault.DekOutcome

/-!
# Chunks as they are stored

A stored chunk is a plaintext together with the draw of its DEK. It determines its record, its
shards and its rows in every table. The invariants below say that the tables hold exactly the rows
of some stored chunks, and that the spool and the objects hold their files.
-/

namespace OmniDrive

open StatementProgram Tables ByteFields Packer

variable {P : Primitives}

/-- A plaintext with the storage mode of its pack and the DEK that was drawn for it. -/
structure StoredChunk where
  plaintext : Bytes
  storageMode : StorageMode
  dekId : ℤ
  keyDraw : ℕ
  deriving DecidableEq

/-- The shards of a pack, numbered from `index` on. -/
def preparedShardsFrom (C : ChunkPrimitives P) (storageMode : StorageMode) (packId : String) :
    ℕ → List Bytes → List PreparedShard
  | _, [] => []
  | index, bytes :: rest =>
    preparedShard C storageMode packId index bytes ::
      preparedShardsFrom C storageMode packId (index + 1) rest

namespace StoredChunk

variable (C : ChunkPrimitives P) (c : StoredChunk)

/-- The chunk encrypted under its DEK; its nonce is the draw after the one of the DEK. -/
def encrypted : EncryptedChunk :=
  encryptChunkV2 C (P.randomKey c.keyDraw) (c.keyDraw + 1) c.plaintext []

def chunkId : ChunkId := (c.encrypted C).chunkId

def manifest : Bytes :=
  buildManifestBytesV2 (c.encrypted C).chunkId (c.encrypted C).nonce (c.encrypted C).ciphertext
    (c.encrypted C).gcmTag c.plaintext.length c.dekId

def packId : String := computePackId C c.storageMode (c.manifest C)

/-- The bytes of the shards. -/
def shardFiles : List Bytes := shardBytes C (c.encrypted C).ciphertext c.storageMode

def shards : List PreparedShard :=
  preparedShardsFrom C c.storageMode (c.packId C) 0 (c.shardFiles C)

/-- The size that the row of the pack gives for a shard. -/
def shardSize : ℤ :=
  match c.storageMode with
  | .localOnly => 0
  | _ => ((c.shardFiles C).head?.map fun b => (b.length : ℤ)).getD 0

/-- What the packer prepares for the chunk, anew or with its stored pack reused. -/
def prepared (fileOffset : ℤ) (reused : Bool) : PreparedPack :=
  { packId := c.packId C
    chunkId := c.chunkId C
    plaintextHash := C.sha256Hex c.plaintext
    storageMode := c.storageMode
    fileOffset
    plainSize := c.plaintext.length
    cipherSize := (c.encrypted C).ciphertext.length
    shardSize := c.shardSize C
    manifestSize := (c.manifest C).length
    nonce := (c.encrypted C).nonce
    gcmTag := (c.encrypted C).gcmTag
    shards := if reused then [] else c.shards C
    isDeduplicated := reused
    dekId := if reused then none else some c.dekId }

/-- The row of `packs` as it is first written. -/
def record : PackRecord := packRecord (c.prepared C 0 false)

/-- The row of `pack_locations`. -/
def location : PackLocation :=
  { chunkId := (c.chunkId C).bytes
    packId := c.packId C
    packOffset := 0
    encryptedSize := (c.manifest C).length }

/-- The row of `pack_deks`. -/
def binding : PackDek := { packId := c.packId C, dekId := c.dekId }

/-- The rows of `pack_shards` as they are first written. -/
def shardRecords : List PackShardRecord := (c.shards C).map (shardRecord (c.packId C))

end StoredChunk

/-- A row of `packs` without its status, which uploads change. -/
def PackRecord.core (pack : PackRecord) : PackRecord := { pack with status := .healthy }

/-- A row of `pack_shards` without what uploads change. -/
def PackShardRecord.core (shard : PackShardRecord) : PackShardRecord :=
  { shard with status := .pending, attempts := 0, lastError := none }

@[simp] theorem PackRecord.packId_core (pack : PackRecord) : pack.core.packId = pack.packId := rfl

@[simp] theorem PackShardRecord.packId_core (shard : PackShardRecord) :
    shard.core.packId = shard.packId := rfl

@[simp] theorem PackShardRecord.shardIndex_core (shard : PackShardRecord) :
    shard.core.shardIndex = shard.shardIndex := rfl

/-! ## Identifiers -/

/-- The chunks have identifiers, and packs, of their own. -/
structure Separate (C : ChunkPrimitives P) (all : List StoredChunk) : Prop where
  chunkId : ∀ c ∈ all, ∀ c' ∈ all, c.chunkId C = c'.chunkId C → c = c'
  packId : ∀ c ∈ all, ∀ c' ∈ all, c.packId C = c'.packId C → c = c'

/-- Two V2 records are equal only if they are records of the same chunk identifier. -/
theorem chunkId_of_manifest_eq {id id' : ChunkId} {nonce nonce' : ChunkNonce}
    {ciphertext ciphertext' : Bytes} {tag tag' : GcmTag} {len len' : ℕ} {dekId dekId' : ℤ}
    (h : buildManifestBytesV2 id nonce ciphertext tag len dekId =
      buildManifestBytesV2 id' nonce' ciphertext' tag' len' dekId') : id = id' := by
  have hslice := congrArg (slice 8 40) h
  rw [buildManifestBytesV2, buildManifestBytesV2, (recordFields_chunkRecord _ _ _).chunkId,
    (recordFields_chunkRecord _ _ _).chunkId] at hslice
  exact FixedBytes.ext hslice

/-- The texts of two storage modes differ in their first byte. -/
theorem storageMode_of_head_eq {mode mode' : StorageMode}
    (h : mode.asStr.toUTF8.data.toList.head? = mode'.asStr.toUTF8.data.toList.head?) :
    mode = mode' := by
  cases mode <;> cases mode' <;> first | rfl | (exact absurd h (by decide))

/-- The identifier of a pack determines its storage mode and its manifest. -/
theorem manifest_of_packId_eq {C : ChunkPrimitives P} (ideal : C.Ideal) {mode mode' : StorageMode}
    {manifest manifest' : Bytes}
    (h : computePackId C mode manifest = computePackId C mode' manifest') :
    mode = mode' ∧ manifest = manifest' := by
  have hbytes := ideal.sha256Hex_inj h
  have hhead : ∀ m : StorageMode, ∀ rest : Bytes, (m.asStr.toUTF8.data.toList ++ rest).head? =
      m.asStr.toUTF8.data.toList.head? := by
    intro m rest
    cases m <;> rfl
  have hmode : mode = mode' := by
    apply storageMode_of_head_eq
    rw [← hhead mode, ← hhead mode', hbytes]
  rw [← hmode] at hbytes
  have hrest := List.append_cancel_left hbytes
  exact ⟨hmode, (List.cons.inj hrest).2⟩

/-- Distinct draws give distinct identifiers. -/
theorem separate_of_collisionFree {C : ChunkPrimitives P} (ideal : C.Ideal) {n : ℕ}
    {known : Bytes → Prop} (hfree : C.CollisionFree n known) {all : List StoredChunk}
    (hknown : ∀ c ∈ all, known c.plaintext) (hdrawn : ∀ c ∈ all, c.keyDraw < n)
    (hdistinct : (all.map (·.keyDraw)).Nodup) : Separate C all where
  chunkId c hc c' hc' h := by
    have hkeys := hfree c.keyDraw c'.keyDraw c.plaintext c'.plaintext (hdrawn c hc) (hdrawn c' hc')
      (hknown c hc) (hknown c' hc') h
    exact List.inj_on_of_nodup_map hdistinct hc hc' hkeys.1
  packId c hc c' hc' h := by
    have hmanifest := manifest_of_packId_eq ideal h
    have hid := chunkId_of_manifest_eq hmanifest.2
    have hkeys := hfree c.keyDraw c'.keyDraw c.plaintext c'.plaintext (hdrawn c hc) (hdrawn c' hc')
      (hknown c hc) (hknown c' hc') hid
    exact List.inj_on_of_nodup_map hdistinct hc hc' hkeys.1

/-! ## Rows -/

/-- The tables of packs, locations, bindings and shards hold the rows of these chunks. -/
structure TablesInv (C : ChunkPrimitives P) (chunks : List StoredChunk) (db : FileDb) : Prop where
  packs : db.packs.map PackRecord.core = chunks.map fun c => (c.record C).core
  locations : db.packLocations = chunks.map fun c => c.location C
  bindings : db.packDeks = chunks.map fun c => c.binding C
  shards : db.packShards.map PackShardRecord.core =
    chunks.flatMap fun c => (c.shardRecords C).map PackShardRecord.core

/-- The chunks of a revision, one behind the other from an offset on. -/
def RefsFrom (C : ChunkPrimitives P) : ℤ → List StoredChunk → List ChunkRefRecord → Prop
  | _, [], [] => True
  | offset, c :: cs, r :: rs =>
    (r.chunkId = (c.chunkId C).bytes ∧ r.fileOffset = offset ∧ r.size = c.plaintext.length) ∧
      RefsFrom C (offset + c.plaintext.length) cs rs
  | _, _, _ => False

/-- The length of the plaintexts together. -/
def plainSize (cs : List StoredChunk) : ℕ := (cs.map fun c => c.plaintext.length).sum

/-- The references of a revision in the order of the table. -/
def refRows (revisionId : ℤ) (db : FileDb) : List ChunkRefRecord :=
  db.chunkRefs.filter (·.revisionId = revisionId)

/-- Every revision refers to stored chunks that make up its size. -/
structure RevisionsInv (C : ChunkPrimitives P) (chunks : List StoredChunk) (db : FileDb) :
    Prop where
  revisionIds : ∀ fr ∈ db.fileRevisions, fr.revisionId ≤ db.revisionSequence
  refIds : ∀ cr ∈ db.chunkRefs, cr.revisionId ≤ db.revisionSequence
  nodup : (db.fileRevisions.map (·.revisionId)).Nodup
  described : ∀ fr ∈ db.fileRevisions, ∃ cs, (∀ c ∈ cs, c ∈ chunks) ∧
    RefsFrom C 0 cs (refRows fr.revisionId db) ∧ fr.size = plainSize cs

/-! ## Keys and files -/

/-- The vault is unlocked with this envelope key, and V1 chunks are read with this vault key. -/
structure VaultOpen (cur vaultKey : P.Key) (vault : VaultWorld P) : Prop where
  envelope : vault.inner.bind (·.envelopeVaultKey) = some cur
  v1 : VaultKeyStore.vaultKeyForV1Read.run vault = (.ok vaultKey, vault)
  deks : ∀ row ∈ vault.db.deks, row.dekId ≤ vault.db.dekSequence

/-- The keys and the files of these chunks, some of which may not be in the tables yet. -/
structure FilesInv (C : ChunkPrimitives P) (known : Bytes → Prop) (cur vaultKey : P.Key)
    (all : List StoredChunk) (w : FileWorld P) : Prop where
  vault : VaultOpen cur vaultKey w.vault
  drawn : ∀ c ∈ all, c.keyDraw < w.vault.draws
  distinct : (all.map (·.keyDraw)).Nodup
  known : ∀ c ∈ all, known c.plaintext
  deks : ∀ c ∈ all, ∃ row, w.vault.db.deks.find? (·.dekId = c.dekId) = some row ∧
    VaultKeyStore.WrappedUnder cur row (P.randomKey c.keyDraw)
  manifests : ∀ c ∈ all, c.storageMode = .localOnly →
    w.spool.manifests (c.packId C) = some (c.manifest C)
  shards : ∀ packId i b, w.spool.shards packId i = some b →
    ∃ c ∈ all, packId = c.packId C ∧ (c.shardFiles C)[i]? = some b
  objects : ∀ provider (key : ObjectKey) b, w.objects provider key = some b →
    ∃ c ∈ all, key.packId = c.packId C ∧ (c.shardFiles C)[key.shardIndex]? = some b
  downloads : ∀ packId b, w.downloads packId = some b → ∃ c ∈ all, packId = c.packId C ∧
    ∃ p, V2RecordOf C (P.randomKey c.keyDraw) (c.keyDraw + 1) c.plaintext b p

/-- A store that was written by the packer alone. -/
structure StoreInv (C : ChunkPrimitives P) (known : Bytes → Prop) (cur vaultKey : P.Key)
    (all chunks : List StoredChunk) (w : FileWorld P) : Prop where
  files : FilesInv C known cur vaultKey all w
  tables : TablesInv C chunks w.db
  revisions : RevisionsInv C chunks w.db
  subset : ∀ c ∈ chunks, c ∈ all
  nodup : chunks.Nodup
  fits : ∀ c ∈ chunks, c.plaintext ≠ [] ∧ c.plaintext.length + 96 < 2 ^ 63

end OmniDrive
