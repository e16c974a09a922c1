import OmniDrive.Library.NamedStore
import OmniDrive.Storage.RestoreOutcome
import OmniDrive.Storage.Uploader

/-!
# What packs are made from

A pack is made from a ciphertext with its identifier, its nonce and its tag, in a storage mode and
as a record of version 1 or 2. The identifier of the pack is a hash of all of that, so that it names
one content. A record of the content decrypts in one way, wherever it comes from.
-/

namespace OmniDrive

open StatementProgram Tables ByteFields Packer Downloader

variable {P : Primitives} {C : ChunkPrimitives P}

/-- What a pack is made from. -/
structure PackContent where
  storageMode : StorageMode
  version : UInt8
  dekIdHint : FixedBytes 4
  chunkId : ChunkId
  nonce : ChunkNonce
  gcmTag : GcmTag
  ciphertext : Bytes
  plainLen : ℕ
  deriving DecidableEq

namespace PackContent

/-- The prefix of the record that the packer writes; only version 2 names the key wrap. -/
def recordPrefix (x : PackContent) : ChunkRecordPrefix where
  recordVersion := x.version
  flags := 0
  compressionAlgo := compressionAlgoNone
  keyWrappingAlgo := if x.version = 2 then keyWrappingAlgoAesKw else 0
  chunkId := x.chunkId
  plainLen := x.plainLen
  cipherLen := x.ciphertext.length
  nonce := x.nonce
  dekIdHint := x.dekIdHint
  reserved1 := .zeros 8

def manifest (x : PackContent) : Bytes := chunkRecord x.recordPrefix x.ciphertext x.gcmTag

/-- The content in another storage mode, as a record of version 1. -/
def copy (mode : StorageMode) (x : PackContent) : PackContent :=
  { x with
    storageMode := mode
    version := 1
    dekIdHint := .zeros 4 }

/-- The manifest of a copy is the one that a reconciliation writes. -/
theorem manifest_copy (x : PackContent) (mode : StorageMode) : (x.copy mode).manifest =
    Packer.buildManifestBytes x.chunkId x.nonce x.ciphertext x.gcmTag x.plainLen := rfl

/-- The content is that one or a copy of it. -/
def CopyOf (x y : PackContent) : Prop := y = x ∨ ∃ mode, y = x.copy mode

theorem CopyOf.refl (x : PackContent) : x.CopyOf x := .inl rfl

/-- A copy of a copy is a copy. -/
theorem CopyOf.copy {x y : PackContent} (h : x.CopyOf y) (mode : StorageMode) :
    x.CopyOf (y.copy mode) := by
  rcases h with rfl | ⟨mode', rfl⟩
  · exact .inr ⟨mode, rfl⟩
  · exact .inr ⟨mode, rfl⟩

/-- The versions there are, and sizes that fit their fields. -/
structure Valid (x : PackContent) : Prop where
  version : x.version = 1 ∨ x.version = 2
  fits : x.ciphertext.length + 96 < 2 ^ 63
  plainFits : x.plainLen < 2 ^ 63

theorem Valid.copy {x : PackContent} (h : x.Valid) (mode : StorageMode) : (x.copy mode).Valid :=
  ⟨.inl rfl, h.fits, h.plainFits⟩

theorem length_manifest (x : PackContent) : x.manifest.length = x.ciphertext.length + 96 := by
  rw [manifest, length_chunkRecord, ChunkRecordPrefix.size, ChunkRecordPrefix.gcmTagSize]
  omega

theorem version_copy_ne (x : PackContent) (mode : StorageMode) : (x.copy mode).version ≠ 2 := by
  show (1 : UInt8) ≠ 2
  decide

variable (C) (x : PackContent)

def packId : String := computePackId C x.storageMode x.manifest

/-- The bytes of the shards. -/
def shardFiles : List Bytes := shardBytes C x.ciphertext x.storageMode

def shardSize : ℤ := ((x.shardFiles C).head?.map fun b => (b.length : ℤ)).getD 0

/-- The row of `packs`. -/
structure Row (pack : PackRecord) : Prop where
  packId : pack.packId = x.packId C
  chunkId : pack.chunkId = x.chunkId.bytes
  storageMode : pack.storageMode = x.storageMode
  encryptionVersion : pack.encryptionVersion = x.version.toNat
  logicalSize : pack.logicalSize = x.plainLen
  cipherSize : pack.cipherSize = x.ciphertext.length
  shardSize : pack.shardSize = x.shardSize C
  nonce : pack.nonce = x.nonce.bytes
  gcmTag : pack.gcmTag = x.gcmTag.bytes

variable {C} {x} in
/-- The status is not what the pack is made from. -/
theorem Row.withStatus {pack : PackRecord} (h : x.Row C pack) (status : PackStatus) :
    x.Row C { pack with status } :=
  ⟨h.packId, h.chunkId, h.storageMode, h.encryptionVersion, h.logicalSize, h.cipherSize,
    h.shardSize, h.nonce, h.gcmTag⟩

/-- The row of `pack_shards` for a shard. -/
structure ShardRow (i : ℕ) (shard : PackShardRecord) : Prop where
  packId : shard.packId = x.packId C
  index : shard.shardIndex = i
  names : NamesObject shard
  file : ∃ bytes, (x.shardFiles C)[i]? = some bytes ∧ shard.checksum = C.sha256Hex bytes

/-- The row of `pack_locations`. -/
structure LocatedAt (l : PackLocation) : Prop where
  chunkId : l.chunkId = x.chunkId.bytes
  packId : l.packId = x.packId C
  packOffset : l.packOffset = 0
  encryptedSize : l.encryptedSize = x.manifest.length

/-! ## Shards -/

section Shards

variable {C} {x}

theorem shardFiles_ec21 (h : x.storageMode = .ec21) :
    x.shardFiles C = splitCiphertextIntoShards C x.ciphertext := by
  rw [shardFiles, h, shardBytes]

theorem shardFiles_singleReplica (h : x.storageMode = .singleReplica) :
    x.shardFiles C = [x.ciphertext] := by
  rw [shardFiles, h, shardBytes]

/-- The row of a shard has the number of a file. -/
theorem ShardRow.lt {i : ℕ} {shard : PackShardRecord} (h : x.ShardRow C i shard) :
    i < (x.shardFiles C).length := by
  obtain ⟨bytes, hfile, -⟩ := h.file
  exact (List.getElem?_eq_some_iff.mp hfile).1

/-- A new pack that is spread over all providers has three slots of one length. -/
theorem length_shardFiles_ec21 (h : x.storageMode = .ec21) :
    (x.shardFiles C).length = totalShards := by
  rw [shardFiles_ec21 h]
  rfl

end Shards

/-! ## Names -/

variable {C} {x} {y : PackContent}

/-- A record gives away its prefix, its ciphertext and its tag. -/
theorem eq_of_chunkRecord_eq {p q : ChunkRecordPrefix} {ciphertext ciphertext' : Bytes}
    {tag tag' : GcmTag} (h : chunkRecord p ciphertext tag = chunkRecord q ciphertext' tag') :
    p.asBytes = q.asBytes ∧ ciphertext = ciphertext' ∧ tag = tag' := by
  have hprefix : p.asBytes.length = q.asBytes.length := by
    rw [p.length_asBytes, q.length_asBytes]
  obtain ⟨hfront, hback⟩ := List.append_inj h hprefix
  have htags : tag.bytes.length = tag'.bytes.length := by
    rw [tag.length_bytes, tag'.length_bytes]
  obtain ⟨hcipher, htag⟩ := List.append_inj' hback htags
  exact ⟨hfront, hcipher, FixedBytes.ext htag⟩

/-- The manifest of a valid content gives away everything but the storage mode. -/
theorem eq_of_manifest_eq (hx : x.Valid) (hy : y.Valid) (hmode : x.storageMode = y.storageMode)
    (h : x.manifest = y.manifest) : x = y := by
  obtain ⟨hhead, hcipher, htag⟩ := eq_of_chunkRecord_eq h
  have hlen : ∀ n (bytes bytes' : FixedBytes n), bytes.bytes.length = bytes'.bytes.length := by
    intro n bytes bytes'
    rw [bytes.length_bytes, bytes'.length_bytes]
  have hrest := List.append_cancel_left hhead
  obtain ⟨hfields, hrest⟩ := List.append_inj hrest rfl
  obtain ⟨hid, hrest⟩ := List.append_inj hrest (hlen _ _ _)
  obtain ⟨hplain, hrest⟩ := List.append_inj hrest (by rw [length_toBe, length_toBe])
  obtain ⟨-, hrest⟩ := List.append_inj hrest (by rw [length_toBe, length_toBe])
  obtain ⟨hnonce, hrest⟩ := List.append_inj hrest (hlen _ _ _)
  obtain ⟨hhint, -⟩ := List.append_inj hrest (hlen _ _ _)
  have hversion : x.version = y.version := (List.cons.inj hfields).1
  have hplainLen : x.plainLen = y.plainLen := by
    have hx' : ofBe (toBe 8 x.plainLen) = x.plainLen :=
      ofBe_toBe_of_lt (hx.plainFits.trans (by decide))
    have hy' : ofBe (toBe 8 y.plainLen) = y.plainLen :=
      ofBe_toBe_of_lt (hy.plainFits.trans (by decide))
    rw [← hx', ← hy']
    exact congrArg ofBe hplain
  cases x
  cases y
  simp only [PackContent.mk.injEq]
  exact ⟨hmode, hversion, FixedBytes.ext hhint, FixedBytes.ext hid, FixedBytes.ext hnonce, htag,
    hcipher, hplainLen⟩

/-- The identifier of a pack names one content. -/
theorem eq_of_packId_eq (ideal : C.Ideal) (hx : x.Valid) (hy : y.Valid)
    (h : x.packId C = y.packId C) : x = y := by
  obtain ⟨hmode, hmanifest⟩ := manifest_of_packId_eq ideal h
  exact eq_of_manifest_eq hx hy hmode hmanifest

/-! ## Records -/

/-- A record of the content, whatever its builder put into the fields that are not read. -/
def IsRecord (x : PackContent) (bytes : Bytes) : Prop :=
  ∃ p : ChunkRecordPrefix, bytes = chunkRecord p x.ciphertext x.gcmTag ∧
    p.recordVersion = x.version ∧ p.chunkId = x.chunkId ∧ p.nonce = x.nonce ∧
    p.plainLen = x.plainLen ∧ p.cipherLen = x.ciphertext.length

theorem isRecord_manifest (x : PackContent) : x.IsRecord x.manifest :=
  ⟨x.recordPrefix, rfl, rfl, rfl, rfl, rfl, rfl⟩

/-- What a record of the content decrypts to. -/
def opened (C : ChunkPrimitives P) (x : PackContent) (vaultKey : P.Key) (dek : Option P.Key) :
    Except DownloaderError Bytes :=
  decryptParsed C
    { recordVersion := x.version
      chunkId := x.chunkId
      plainLen := x.plainLen
      nonce := x.nonce
      ciphertext := x.ciphertext
      gcmTag := x.gcmTag } vaultKey dek

/-- What the reader returns for a record of the content. -/
def read (C : ChunkPrimitives P) (x : PackContent) (size : ℤ) (vaultKey : P.Key)
    (dek : Option P.Key) : Except DownloaderError Bytes := do
  let plaintext ← x.opened C vaultKey dek
  if (plaintext.length : ℤ) ≠ size ∨ plaintext.length ≠ x.plainLen then
    .error (.invalidPackRecord "plain size mismatch")
  else pure plaintext

/-- A location that points at a pack of the content. -/
structure Points (C : ChunkPrimitives P) (x : PackContent) (chunk : FileChunkLocation) : Prop where
  chunkId : chunk.chunkId = x.chunkId.bytes
  packId : chunk.packId = x.packId C
  packOffset : chunk.packOffset = 0
  encryptedSize : chunk.encryptedSize = x.manifest.length

/-- A record is read as its content says. -/
theorem decrypt_of_isRecord (hx : x.Valid) {bytes : Bytes} (h : x.IsRecord bytes)
    {chunk : FileChunkLocation} (hpoints : x.Points C chunk) (vaultKey : P.Key)
    (dek : Option P.Key) :
    decryptChunkRecord C bytes chunk vaultKey dek = x.read C chunk.size vaultKey dek := by
  obtain ⟨p, rfl, hversion, hid, hnonce, hplain, hcipher⟩ := h
  have hlength : (chunkRecord p x.ciphertext x.gcmTag).length = x.manifest.length := by
    rw [length_manifest, length_chunkRecord, ChunkRecordPrefix.size, ChunkRecordPrefix.gcmTagSize]
    omega
  have hfits := hx.fits
  have hplainFits := hx.plainFits
  have hparsed := parseRecord_chunkRecord hcipher (by omega) (by omega)
    ⟨hpoints.packOffset, by rw [hpoints.encryptedSize, hlength]⟩
    (show chunk.chunkId = p.chunkId.bytes by rw [hpoints.chunkId, hid])
  rw [decryptChunkRecord, hparsed, Prog.except_ok_bind, read, opened, hversion, hid, hnonce, hplain]

/-- Everything but version 2 is decrypted with the vault key. -/
theorem opened_of_ne (h : x.version ≠ 2) (vaultKey : P.Key) (dek : Option P.Key) :
    x.opened C vaultKey dek =
      (decryptChunk C vaultKey x.chunkId [] x.ciphertext x.gcmTag).mapError .crypto :=
  if_neg h

/-- The copies of a content of version 1 are read as it is. -/
theorem read_copy (h : x.version = 1) (mode : StorageMode) (size : ℤ) (vaultKey : P.Key)
    (dek dek' : Option P.Key) :
    (x.copy mode).read C size vaultKey dek = x.read C size vaultKey dek' := by
  have hone : x.version ≠ 2 := by
    rw [h]
    decide
  have hcopy : (x.copy mode).opened C vaultKey dek = x.opened C vaultKey dek' :=
    (opened_of_ne (version_copy_ne x mode) vaultKey dek).trans
      (opened_of_ne hone vaultKey dek').symm
  rw [read, read, hcopy]
  rfl

/-- A copy is decrypted with the vault key. -/
theorem read_copy_of_error {mode : StorageMode} {vaultKey : P.Key} {e : CryptoError}
    (h : decryptChunk C vaultKey x.chunkId [] x.ciphertext x.gcmTag = .error e) (size : ℤ)
    (dek : Option P.Key) : (x.copy mode).read C size vaultKey dek = .error (.crypto e) := by
  have hopened : (x.copy mode).opened C vaultKey dek = .error (.crypto e) :=
    (opened_of_ne (version_copy_ne x mode) vaultKey dek).trans
      (congrArg (Except.mapError DownloaderError.crypto) h)
  rw [read, hopened]
  rfl

end PackContent

/-! ## Stored chunks -/

/-- What the pack of a stored chunk is made from. -/
def StoredChunk.content (C : ChunkPrimitives P) (c : StoredChunk) : PackContent where
  storageMode := c.storageMode
  version := 2
  dekIdHint := dekIdHint c.dekId
  chunkId := c.chunkId C
  nonce := (c.encrypted C).nonce
  gcmTag := (c.encrypted C).gcmTag
  ciphertext := (c.encrypted C).ciphertext
  plainLen := c.plaintext.length

end OmniDrive
