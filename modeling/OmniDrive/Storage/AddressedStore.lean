import OmniDrive.Storage.Addressed
import OmniDrive.Storage.RoundTrip

/-!
# Stores of packed files are addressed by content

Everything that the packer and the uploader store of a chunk belongs to the content of the chunk, as
a record of version 2 in the storage mode of its pack. So a store that was written by them alone is
addressed by content, and every chunk is located in the pack of its own content.
-/

namespace OmniDrive

open StatementProgram Tables ByteFields NamedStore Packer Downloader

variable {P : Primitives} {C : ChunkPrimitives P} {known : Bytes → Prop} {cur vaultKey : P.Key}
  {all chunks : List StoredChunk} {w : FileWorld P} {c : StoredChunk}

/-- AES-GCM under the V1 key of the vault refuses the chunk. -/
def EncryptedChunk.ForeignTo (C : ChunkPrimitives P) (vaultKey : P.Key) (chunk : EncryptedChunk) :
    Prop :=
  C.gcmDecrypt (chunkEncryptionKey vaultKey) (chunkNonce C vaultKey chunk.chunkId) []
    chunk.ciphertext chunk.gcmTag = none

/-! ## The content of a stored chunk -/

namespace StoredChunk

theorem shardFiles_content (c : StoredChunk) : (c.content C).shardFiles C = c.shardFiles C := rfl

theorem valid_content (ideal : C.Ideal) (hfits : c.plaintext.length + 96 < 2 ^ 63) :
    (c.content C).Valid where
  version := .inr rfl
  fits := by
    show (c.encrypted C).ciphertext.length + 96 < 2 ^ 63
    rw [c.length_ciphertext ideal]
    exact hfits
  plainFits := by
    show c.plaintext.length < 2 ^ 63
    omega

/-- The name of a stored chunk names its content. -/
theorem eq_content_of_packId (ideal : C.Ideal) {x : PackContent} (hx : x.Valid)
    (h : x.packId C = c.packId C) : x = c.content C := by
  have hmanifest : x.manifest = c.manifest C := (manifest_of_packId_eq ideal h).2
  have hlength := congrArg List.length hmanifest
  rw [PackContent.length_manifest, c.length_manifest, c.length_ciphertext ideal] at hlength
  have hfits := hx.fits
  exact PackContent.eq_of_packId_eq ideal hx (c.valid_content ideal (by omega)) h

theorem shardSize_content (c : StoredChunk) : (c.content C).shardSize C = c.shardSize C := by
  rw [PackContent.shardSize, shardFiles_content, shardSize]
  cases hmode : c.storageMode with
  | ec21 => rfl
  | singleReplica => rfl
  | localOnly =>
    rw [shardFiles, hmode]
    rfl

/-- The row of `packs` of a stored chunk is one of its content. -/
theorem row_content {pack : PackRecord} (h : pack.core = (c.record C).core) :
    (c.content C).Row C pack where
  packId := congrArg (·.packId) h
  chunkId := congrArg (·.chunkId) h
  storageMode := congrArg (·.storageMode) h
  encryptionVersion := congrArg (·.encryptionVersion) h
  logicalSize := congrArg (·.logicalSize) h
  cipherSize := congrArg (·.cipherSize) h
  shardSize := by
    rw [c.shardSize_content]
    exact congrArg (·.shardSize) h
  nonce := congrArg (·.nonce) h
  gcmTag := congrArg (·.gcmTag) h

/-- So is every row of its shards. -/
theorem shardRow_content {row shard : PackShardRecord} (hrow : row ∈ c.shardRecords C)
    (h : row.core = shard.core) : ∃ i, (c.content C).ShardRow C i shard := by
  obtain ⟨prepared, hprepared, rfl⟩ := List.mem_map.mp hrow
  obtain ⟨i, hi⟩ := List.mem_iff_getElem?.mp hprepared
  rw [shards, getElem?_preparedShardsFrom, Option.map_eq_some_iff, Nat.zero_add] at hi
  obtain ⟨bytes, hbytes, rfl⟩ := hi
  have hpack : c.packId C = shard.packId := congrArg (·.packId) h
  have hindex : (i : ℤ) = shard.shardIndex := congrArg (·.shardIndex) h
  have hkey : (⟨c.packId C, i⟩ : ObjectKey) = shard.objectKey := congrArg (·.objectKey) h
  have hchecksum : C.sha256Hex bytes = shard.checksum := congrArg (·.checksum) h
  refine ⟨i, hpack.symm, hindex.symm, ?_, bytes, hbytes, hchecksum.symm⟩
  rw [NamesObject, ← hkey, ← hpack, ← hindex, Int.toNat_natCast]

/-- A record of the chunk is a record of its content. -/
theorem IsRecord.content {bytes : Bytes} (h : c.IsRecord C bytes) :
    (c.content C).IsRecord bytes := by
  obtain ⟨p, hrecord⟩ := h
  exact ⟨p, hrecord.record_eq, hrecord.version, hrecord.chunkId, hrecord.nonce, hrecord.plainLen,
    hrecord.cipherLen⟩

/-- The content is read to the plaintext with the DEK of the chunk. -/
theorem read_content (ideal : C.Ideal) (hfits : c.plaintext.length + 96 < 2 ^ 63)
    (vaultKey : P.Key) : (c.content C).read C c.plaintext.length vaultKey
      (some (P.randomKey c.keyDraw)) = .ok c.plaintext := by
  have hpoints : (c.content C).Points C (c.locationAt C 0 0) := ⟨rfl, rfl, rfl, rfl⟩
  have hdecrypt : decryptChunkRecord C (c.manifest C) (c.locationAt C 0 0) vaultKey
      (some (P.randomKey c.keyDraw)) = .ok c.plaintext :=
    c.isRecord_manifest.decrypt ideal hfits rfl rfl rfl rfl vaultKey
  rw [← hdecrypt]
  exact (PackContent.decrypt_of_isRecord (c.valid_content ideal hfits)
    (c.content C).isRecord_manifest hpoints vaultKey _).symm

/-- The vault key does not read a copy of the content of a chunk that is foreign to it. -/
theorem read_copy_content (hforeign : (c.encrypted C).ForeignTo C vaultKey) (mode : StorageMode)
    (size : ℤ) (dek : Option P.Key) :
    ((c.content C).copy mode).read C size vaultKey dek = .error (.crypto .aead) := by
  have hdecrypt : decryptChunk C vaultKey (c.chunkId C) [] (c.encrypted C).ciphertext
      (c.encrypted C).gcmTag = .error .aead := by
    rw [EncryptedChunk.ForeignTo] at hforeign
    rw [decryptChunk, StoredChunk.chunkId, hforeign]
  exact PackContent.read_copy_of_error (x := c.content C) hdecrypt size dek

end StoredChunk

/-! ## The whole store -/

/-- The content of the stored chunk with an identifier. -/
def contentOf (C : ChunkPrimitives P) (chunks : List StoredChunk) (chunkId : Bytes) : PackContent :=
  ((chunks.find? fun c => (c.chunkId C).bytes = chunkId).map (·.content C)).getD
    { storageMode := .localOnly
      version := 1
      dekIdHint := .zeros 4
      chunkId := .zeros 32
      nonce := .zeros 12
      gcmTag := .zeros 16
      ciphertext := []
      plainLen := 0 }

theorem contentOf_chunkId (separate : Separate C all) (hsub : ∀ c ∈ chunks, c ∈ all)
    (hc : c ∈ chunks) : contentOf C chunks (c.chunkId C).bytes = c.content C := by
  have hfound : chunks.find? (fun c' => (c'.chunkId C).bytes = (c.chunkId C).bytes) = some c := by
    apply find?_of_unique (fun c : StoredChunk => (c.chunkId C).bytes) hc
    intro c' hc' hkey
    exact separate.chunkId c' (hsub c' hc') c (hsub c hc) (FixedBytes.ext hkey)
  rw [contentOf, hfound]
  rfl

/-- The shards of a pack are numbered. -/
theorem shardIndex_preparedShardsFrom (mode : StorageMode) (packId : String) (index : ℕ)
    (bytes : List Bytes) : (preparedShardsFrom C mode packId index bytes).map (·.shardIndex) =
      (List.range' index bytes.length).map fun i : ℕ => (i : ℤ) := by
  induction bytes generalizing index with
  | nil => rfl
  | cons b rest ih =>
    rw [preparedShardsFrom, List.map_cons, ih, List.length_cons, List.range'_succ, List.map_cons]
    rfl

/-- No two rows of `pack_shards` have the same pack and number. -/
theorem nodup_shardKeys (separate : Separate C all)
    (h : StoreInv C known cur vaultKey all chunks w) :
    (w.db.packShards.map fun s => (s.packId, s.shardIndex)).Nodup := by
  let key := fun s : PackShardRecord => (s.packId, s.shardIndex)
  have hkeys : w.db.packShards.map key = (chunks.flatMap fun c => (c.shardRecords C).map key) := by
    have hrows := congrArg (List.map key) h.tables.shards
    rw [List.map_map, List.map_flatMap] at hrows
    refine Eq.trans ?_ (hrows.trans ?_)
    · rfl
    · congr 1
      funext c
      rw [List.map_map]
      rfl
  show (w.db.packShards.map key).Nodup
  rw [hkeys, List.nodup_flatMap]
  constructor
  · intro c _
    have hindexes : ((c.shards C).map (·.shardIndex)).Nodup := by
      rw [StoredChunk.shards, shardIndex_preparedShardsFrom]
      exact List.Nodup.map Int.ofNat_injective (List.nodup_range' 1)
    have hsecond : (((c.shardRecords C).map key).map Prod.snd).Nodup := by
      rw [StoredChunk.shardRecords, List.map_map, List.map_map]
      exact hindexes
    exact List.Nodup.of_map _ hsecond
  · refine h.nodup.imp_of_mem fun {c c'} hc hc' hne => ?_
    intro k hk hk'
    obtain ⟨s, hs, rfl⟩ := List.mem_map.mp hk
    obtain ⟨s', hs', hsame⟩ := List.mem_map.mp hk'
    obtain ⟨prepared, -, rfl⟩ := List.mem_map.mp hs
    obtain ⟨prepared', -, rfl⟩ := List.mem_map.mp hs'
    have hid : c'.packId C = c.packId C := congrArg Prod.fst hsame
    exact hne (separate.packId c (h.subset c hc) c' (h.subset c' hc') hid.symm)

/-- A store that the packer has written is addressed by the contents of its chunks. -/
theorem StoreInv.addressed (ideal : C.Ideal) (separate : Separate C all)
    (h : StoreInv C known cur vaultKey all chunks w) :
    Addressed C (contentOf C chunks) w w where
  kept := ⟨rfl, rfl, rfl, fun _ _ hbound => hbound, rfl⟩
  packs pack hpack := by
    obtain ⟨c, hc, hcore⟩ := h.tables.exists_chunk hpack
    exact ⟨c.content C, c.valid_content ideal (h.fits c hc).2, c.row_content hcore⟩
  shardKeys := nodup_shardKeys separate h
  shards s hs x hx hname := by
    have hmem : s.core ∈ w.db.packShards.map PackShardRecord.core := List.mem_map_of_mem hs
    rw [h.tables.shards] at hmem
    obtain ⟨c, -, hrow⟩ := List.mem_flatMap.mp hmem
    obtain ⟨row, hrow, hcore⟩ := List.mem_map.mp hrow
    obtain ⟨i, hshard⟩ := StoredChunk.shardRow_content hrow hcore
    rw [StoredChunk.eq_content_of_packId ideal hx (hname.trans hshard.packId)]
    exact ⟨i, hshard⟩
  locations l hl := by
    rw [h.tables.locations] at hl
    obtain ⟨c, hc, rfl⟩ := List.mem_map.mp hl
    have horigin : contentOf C chunks (c.location C).chunkId = c.content C :=
      contentOf_chunkId separate h.subset hc
    obtain ⟨pack, hpack, hcore⟩ := find?_pack separate h.tables h.subset hc
    rw [horigin]
    exact ⟨c.valid_content ideal (h.fits c hc).2, c.content C, .refl _, ⟨rfl, rfl, rfl, rfl⟩, pack,
      List.mem_of_find?_eq_some hpack, c.row_content hcore⟩
  manifests pack hpack x hx hrow hmode := by
    obtain ⟨c, hc, hcore⟩ := h.tables.exists_chunk hpack
    have hid : pack.packId = c.packId C := congrArg (·.packId) hcore
    obtain rfl := StoredChunk.eq_content_of_packId ideal hx (hrow.packId.symm.trans hid)
    exact h.files.manifests c (h.subset c hc) hmode
  spool packId index bytes hbytes x hx hname := by
    obtain ⟨c, -, hid, hfile⟩ := h.files.shards packId index bytes hbytes
    rw [StoredChunk.eq_content_of_packId ideal hx (hname.trans hid)]
    exact hfile
  objects provider key bytes hbytes x hx hname := by
    obtain ⟨c, -, hid, hfile⟩ := h.files.objects provider key bytes hbytes
    rw [StoredChunk.eq_content_of_packId ideal hx (hname.trans hid)]
    exact hfile
  downloads packId bytes hbytes x hx hname := by
    obtain ⟨c, -, hid, hrecord⟩ := h.files.downloads packId bytes hbytes
    rw [StoredChunk.eq_content_of_packId ideal hx (hname.trans hid)]
    exact StoredChunk.IsRecord.content hrecord

end OmniDrive
