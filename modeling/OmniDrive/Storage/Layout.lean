import OmniDrive.Crypto.Chunks
import OmniDrive.Storage.Records

/-!
# Chunk records

A pack file is one chunk record: a prefix of 80 bytes, the ciphertext and the GCM tag. The packer
writes records of version 1 and 2, the downloader rebuilds one from the row of a pack, and the
reader takes a record apart again by position.
-/

namespace OmniDrive

open StatementProgram ByteFields

/-- The bytes of `b"CHNK"`. -/
def chunkRecordMagic : Bytes := [67, 72, 78, 75]

def compressionAlgoNone : UInt8 := 0

def keyWrappingAlgoAesKw : UInt8 := 1

structure ChunkRecordPrefix where
  recordVersion : UInt8
  flags : UInt8
  compressionAlgo : UInt8
  keyWrappingAlgo : UInt8
  chunkId : ChunkId
  plainLen : ℕ
  cipherLen : ℕ
  nonce : ChunkNonce
  dekIdHint : FixedBytes 4
  reserved1 : FixedBytes 8
  deriving DecidableEq

namespace ChunkRecordPrefix

def size : ℕ := 80

def gcmTagSize : ℕ := 16

/-- The fields in their order in memory. -/
def asBytes (p : ChunkRecordPrefix) : Bytes :=
  chunkRecordMagic ++ ([p.recordVersion, p.flags, p.compressionAlgo, p.keyWrappingAlgo] ++
    (p.chunkId.bytes ++ (toBe 8 p.plainLen ++ (toBe 8 p.cipherLen ++ (p.nonce.bytes ++
      (p.dekIdHint.bytes ++ p.reserved1.bytes))))))

end ChunkRecordPrefix

/-- A prefix with its ciphertext and tag. -/
def chunkRecord (p : ChunkRecordPrefix) (ciphertext : Bytes) (gcmTag : GcmTag) : Bytes :=
  p.asBytes ++ (ciphertext ++ gcmTag.bytes)

/-! ## Building records -/

namespace Packer

def buildManifestBytes (chunkId : ChunkId) (nonce : ChunkNonce) (ciphertext : Bytes)
    (gcmTag : GcmTag) (plaintextLen : ℕ) : Bytes :=
  chunkRecord
    { recordVersion := 1
      flags := 0
      compressionAlgo := compressionAlgoNone
      keyWrappingAlgo := 0
      chunkId
      plainLen := plaintextLen
      cipherLen := ciphertext.length
      nonce
      dekIdHint := .zeros 4
      reserved1 := .zeros 8 } ciphertext gcmTag

/-- `dek_id as u32` in big-endian order. -/
def dekIdHint (dekId : ℤ) : FixedBytes 4 := ⟨toBe 4 (dekId % 2 ^ 32).toNat, length_toBe _ _⟩

def buildManifestBytesV2 (chunkId : ChunkId) (nonce : ChunkNonce) (ciphertext : Bytes)
    (gcmTag : GcmTag) (plaintextLen : ℕ) (dekId : ℤ) : Bytes :=
  chunkRecord
    { recordVersion := 2
      flags := 0
      compressionAlgo := compressionAlgoNone
      keyWrappingAlgo := keyWrappingAlgoAesKw
      chunkId
      plainLen := plaintextLen
      cipherLen := ciphertext.length
      nonce
      dekIdHint := dekIdHint dekId
      reserved1 := .zeros 8 } ciphertext gcmTag

end Packer

inductive DownloaderError where
  | crypto (err : CryptoError)
  | vault (err : VaultError)
  | noChunksForInode (inodeId : ℤ)
  | packMissing (packId : String)
  | noPackShards (packId : String)
  | invalidPackRecord (reason : String)
  | shardDownloadFailed (packId : String) (errors : List String)
  | numericOverflow (context : String)
  | erasureCoding
  | io
  | cache
  deriving DecidableEq, Repr

/-- `usize::try_from` of a column. -/
def toUsize (value : ℤ) (context : String) : Except DownloaderError ℕ :=
  if 0 ≤ value then .ok value.toNat else .error (.numericOverflow context)

/-- A checked conversion that names the field on failure. -/
def fixedField (n : ℕ) (bytes : Bytes) (reason : String) :
    Except DownloaderError (FixedBytes n) :=
  match FixedBytes.tryFrom n bytes with
  | some b => .ok b
  | none => .error (.invalidPackRecord reason)

def vecToChunkId (bytes : Bytes) : Except DownloaderError ChunkId :=
  fixedField 32 bytes "chunk id length"

def vecToNonce (bytes : Bytes) : Except DownloaderError ChunkNonce :=
  fixedField 12 bytes "nonce length"

def vecToGcmTag (bytes : Bytes) : Except DownloaderError GcmTag :=
  fixedField 16 bytes "gcm tag length"

namespace Downloader

/-- Rebuild the record of a pack from its row and its ciphertext. -/
def buildManifestBytes (pack : PackRecord) (ciphertext : Bytes) : Except DownloaderError Bytes := do
  let chunkId ← vecToChunkId pack.chunkId
  let nonce ← vecToNonce pack.nonce
  let gcmTag ← vecToGcmTag pack.gcmTag
  let plainLen ← toUsize pack.logicalSize "logical size"
  if 0 ≤ pack.encryptionVersion ∧ pack.encryptionVersion < 256 then
    pure (chunkRecord
      { recordVersion := UInt8.ofNat pack.encryptionVersion.toNat
        flags := 0
        compressionAlgo := compressionAlgoNone
        keyWrappingAlgo := 0
        chunkId
        plainLen
        cipherLen := ciphertext.length
        nonce
        dekIdHint := .zeros 4
        reserved1 := .zeros 8 } ciphertext gcmTag)
  else .error (.numericOverflow "encryption version")

/-! ## Reading records -/

/-- The fields of a record that the reader uses. -/
structure ParsedRecord where
  recordVersion : UInt8
  chunkId : ChunkId
  plainLen : ℕ
  nonce : ChunkNonce
  ciphertext : Bytes
  gcmTag : GcmTag
  deriving DecidableEq

/-- The record that a location points at. -/
def cutRecord (packBytes : Bytes) (chunk : FileChunkLocation) : Except DownloaderError Bytes := do
  let packOffset ← toUsize chunk.packOffset "pack offset"
  let encryptedSize ← toUsize chunk.encryptedSize "encrypted size"
  let recordEnd := packOffset + encryptedSize
  if recordEnd > packBytes.length ∨ encryptedSize < ChunkRecordPrefix.size then
    .error (.invalidPackRecord "record bounds")
  else pure (slice packOffset recordEnd packBytes)

/-- Take the fields out of a record that has the expected sizes. -/
def parseFields (record : Bytes) (expectedChunkId : ChunkId) :
    Except DownloaderError ParsedRecord := do
  let plainLen := ofBe (slice 40 48 record)
  let cipherLen := ofBe (slice 48 56 record)
  let expectedRecordSize := ChunkRecordPrefix.size + cipherLen + ChunkRecordPrefix.gcmTagSize
  if 2 ^ 64 ≤ expectedRecordSize then .error (.numericOverflow "record size")
  else if expectedRecordSize ≠ record.length then
    .error (.invalidPackRecord "encrypted size mismatch")
  else
    let nonce ← fixedField 12 (slice 56 68 record) "nonce"
    let ciphertextEnd := ChunkRecordPrefix.size + cipherLen
    let tagEnd := ciphertextEnd + ChunkRecordPrefix.gcmTagSize
    let gcmTag ← fixedField 16 (slice ciphertextEnd tagEnd record) "gcm tag"
    pure
      { recordVersion := record.getD 4 0
        chunkId := expectedChunkId
        plainLen
        nonce
        ciphertext := slice ChunkRecordPrefix.size ciphertextEnd record
        gcmTag }

/-- Cut a record out of a pack and check its magic, its identifier and its sizes. -/
def parseRecord (packBytes : Bytes) (chunk : FileChunkLocation) :
    Except DownloaderError ParsedRecord := do
  let record ← cutRecord packBytes chunk
  if slice 0 4 record ≠ chunkRecordMagic then .error (.invalidPackRecord "chunk magic")
  else
    let expectedChunkId ← vecToChunkId chunk.chunkId
    let actualChunkId ← vecToChunkId (slice 8 40 record)
    if actualChunkId ≠ expectedChunkId then .error (.invalidPackRecord "chunk_id mismatch")
    else parseFields record expectedChunkId

variable {P : Primitives} (C : ChunkPrimitives P)

/-- Decrypt the ciphertext of a record by its version; everything but 2 is read as version 1. -/
def decryptParsed (record : ParsedRecord) (vaultKey : P.Key) (dek : Option P.Key) :
    Except DownloaderError Bytes :=
  if record.recordVersion = 2 then
    match dek with
    | none => .error (.invalidPackRecord "V2 chunk but no DEK available for this inode")
    | some dek =>
      (decryptChunkV2Verified C dek record.chunkId record.nonce [] record.ciphertext
        record.gcmTag).mapError .crypto
  else
    (decryptChunk C vaultKey record.chunkId [] record.ciphertext record.gcmTag).mapError .crypto

def decryptChunkRecord (packBytes : Bytes) (chunk : FileChunkLocation) (vaultKey : P.Key)
    (dek : Option P.Key) : Except DownloaderError Bytes := do
  let record ← parseRecord packBytes chunk
  let plaintext ← decryptParsed C record vaultKey dek
  if (plaintext.length : ℤ) ≠ chunk.size ∨ plaintext.length ≠ record.plainLen then
    .error (.invalidPackRecord "plain size mismatch")
  else pure plaintext

end Downloader

/-! ## What a written record reads back as -/

@[simp] theorem fixedField_bytes {n : ℕ} (b : FixedBytes n) (reason : String) :
    fixedField n b.bytes reason = .ok b := by
  rw [fixedField, FixedBytes.tryFrom_bytes]

@[simp] theorem toUsize_natCast (n : ℕ) (context : String) : toUsize n context = .ok n := by
  rw [toUsize, if_pos (Int.natCast_nonneg n), Int.toNat_natCast]

@[simp] theorem ChunkRecordPrefix.length_asBytes (p : ChunkRecordPrefix) :
    p.asBytes.length = ChunkRecordPrefix.size := by
  simp [ChunkRecordPrefix.asBytes, ChunkRecordPrefix.size, chunkRecordMagic]

@[simp] theorem length_chunkRecord (p : ChunkRecordPrefix) (ciphertext : Bytes) (gcmTag : GcmTag) :
    (chunkRecord p ciphertext gcmTag).length =
      ChunkRecordPrefix.size + ciphertext.length + ChunkRecordPrefix.gcmTagSize := by
  simp only [chunkRecord, List.length_append, ChunkRecordPrefix.length_asBytes,
    FixedBytes.length_bytes, ChunkRecordPrefix.gcmTagSize]
  omega

section Fields

variable (p : ChunkRecordPrefix) (ciphertext : Bytes) (gcmTag : GcmTag)

/-- Every field of a record stands at the length of the fields in front of it. -/
structure RecordFields (record : Bytes) : Prop where
  magic : slice 0 4 record = chunkRecordMagic
  version : record.getD 4 0 = p.recordVersion
  chunkId : slice 8 40 record = p.chunkId.bytes
  plainLen : slice 40 48 record = toBe 8 p.plainLen
  cipherLen : slice 48 56 record = toBe 8 p.cipherLen
  nonce : slice 56 68 record = p.nonce.bytes
  cipher : slice 80 (80 + ciphertext.length) record = ciphertext
  tag : slice (80 + ciphertext.length) (80 + ciphertext.length + 16) record = gcmTag.bytes

/-- The record with the fields from a position on set apart. -/
theorem chunkRecord_split (front field back : Bytes)
    (h : p.asBytes = front ++ (field ++ back)) :
    chunkRecord p ciphertext gcmTag = front ++ (field ++ (back ++ (ciphertext ++ gcmTag.bytes))) := by
  rw [chunkRecord, h, List.append_assoc, List.append_assoc]

theorem recordFields_chunkRecord :
    RecordFields p ciphertext gcmTag (chunkRecord p ciphertext gcmTag) where
  magic := by
    rw [chunkRecord_split p ciphertext gcmTag [] chunkRecordMagic _ rfl]
    exact slice_field rfl rfl
  version := rfl
  chunkId := by
    rw [chunkRecord_split p ciphertext gcmTag (chunkRecordMagic ++
      [p.recordVersion, p.flags, p.compressionAlgo, p.keyWrappingAlgo]) p.chunkId.bytes
      (toBe 8 p.plainLen ++ (toBe 8 p.cipherLen ++ (p.nonce.bytes ++
        (p.dekIdHint.bytes ++ p.reserved1.bytes)))) (by simp [ChunkRecordPrefix.asBytes])]
    apply slice_field
    · rfl
    · rw [FixedBytes.length_bytes]
  plainLen := by
    rw [chunkRecord_split p ciphertext gcmTag (chunkRecordMagic ++
      [p.recordVersion, p.flags, p.compressionAlgo, p.keyWrappingAlgo] ++ p.chunkId.bytes)
      (toBe 8 p.plainLen) (toBe 8 p.cipherLen ++ (p.nonce.bytes ++
        (p.dekIdHint.bytes ++ p.reserved1.bytes))) (by simp [ChunkRecordPrefix.asBytes])]
    apply slice_field
    · simp [chunkRecordMagic]
    · rw [length_toBe]
  cipherLen := by
    rw [chunkRecord_split p ciphertext gcmTag (chunkRecordMagic ++
      [p.recordVersion, p.flags, p.compressionAlgo, p.keyWrappingAlgo] ++ p.chunkId.bytes ++
      toBe 8 p.plainLen) (toBe 8 p.cipherLen) (p.nonce.bytes ++
        (p.dekIdHint.bytes ++ p.reserved1.bytes)) (by simp [ChunkRecordPrefix.asBytes])]
    apply slice_field
    · simp [chunkRecordMagic]
    · rw [length_toBe]
  nonce := by
    rw [chunkRecord_split p ciphertext gcmTag (chunkRecordMagic ++
      [p.recordVersion, p.flags, p.compressionAlgo, p.keyWrappingAlgo] ++ p.chunkId.bytes ++
      toBe 8 p.plainLen ++ toBe 8 p.cipherLen) p.nonce.bytes
      (p.dekIdHint.bytes ++ p.reserved1.bytes) (by simp [ChunkRecordPrefix.asBytes])]
    apply slice_field
    · simp [chunkRecordMagic]
    · rw [FixedBytes.length_bytes]
  cipher := slice_field p.length_asBytes rfl
  tag := by
    rw [chunkRecord, ← List.append_assoc]
    apply slice_last
    · rw [List.length_append, p.length_asBytes, ChunkRecordPrefix.size]
    · rw [FixedBytes.length_bytes]

end Fields

/-- A location that points at the whole of a record. -/
structure PointsAt (chunk : FileChunkLocation) (record : Bytes) : Prop where
  offset : chunk.packOffset = 0
  size : chunk.encryptedSize = record.length

section Parse

open Downloader

variable {p : ChunkRecordPrefix} {ciphertext : Bytes} {gcmTag : GcmTag} {chunk : FileChunkLocation}

/-- A location that points at the whole of a record cuts out the record. -/
theorem cutRecord_chunkRecord (hpoints : PointsAt chunk (chunkRecord p ciphertext gcmTag)) :
    cutRecord (chunkRecord p ciphertext gcmTag) chunk = .ok (chunkRecord p ciphertext gcmTag) := by
  have hsize := length_chunkRecord p ciphertext gcmTag
  have hoffset : toUsize chunk.packOffset "pack offset" = .ok 0 := by
    rw [hpoints.offset]
    rfl
  have hencrypted : toUsize chunk.encryptedSize "encrypted size" =
      .ok (chunkRecord p ciphertext gcmTag).length := by
    rw [hpoints.size, toUsize_natCast]
  rw [cutRecord, hoffset, hencrypted]
  simp only [Prog.except_ok_bind, Nat.zero_add]
  rw [if_neg (by omega), slice_all rfl]
  rfl

/-- The fields of a record that fits the address space. -/
theorem parseFields_chunkRecord (hlen : p.cipherLen = ciphertext.length)
    (hplain : p.plainLen < 2 ^ 64) (hfits : ciphertext.length + 96 < 2 ^ 64) :
    parseFields (chunkRecord p ciphertext gcmTag) p.chunkId = .ok
      { recordVersion := p.recordVersion
        chunkId := p.chunkId
        plainLen := p.plainLen
        nonce := p.nonce
        ciphertext
        gcmTag } := by
  have hfields := recordFields_chunkRecord p ciphertext gcmTag
  have hcipherLen : ofBe (toBe 8 p.cipherLen) = ciphertext.length := by
    rw [hlen]
    exact ofBe_toBe_of_lt (by omega)
  have hplainLen : ofBe (toBe 8 p.plainLen) = p.plainLen := ofBe_toBe_of_lt (by omega)
  have hsize : ¬ 2 ^ 64 ≤
      ChunkRecordPrefix.size + ciphertext.length + ChunkRecordPrefix.gcmTagSize := by
    rw [ChunkRecordPrefix.size, ChunkRecordPrefix.gcmTagSize]
    omega
  have hcipher : slice ChunkRecordPrefix.size (ChunkRecordPrefix.size + ciphertext.length)
      (chunkRecord p ciphertext gcmTag) = ciphertext := hfields.cipher
  have htag : slice (ChunkRecordPrefix.size + ciphertext.length)
      (ChunkRecordPrefix.size + ciphertext.length + ChunkRecordPrefix.gcmTagSize)
      (chunkRecord p ciphertext gcmTag) = gcmTag.bytes := hfields.tag
  rw [parseFields, hfields.plainLen, hfields.cipherLen, hfields.nonce, hfields.version, hcipherLen,
    hplainLen, length_chunkRecord, if_neg hsize, if_neg (fun h => h rfl), fixedField_bytes,
    Prog.except_ok_bind]
  simp only [hcipher, htag, fixedField_bytes, Prog.except_ok_bind]
  rfl

/-- A written record is taken apart into its fields by a location with its identifier. -/
theorem parseRecord_chunkRecord (hlen : p.cipherLen = ciphertext.length)
    (hplain : p.plainLen < 2 ^ 64) (hfits : ciphertext.length + 96 < 2 ^ 64)
    (hpoints : PointsAt chunk (chunkRecord p ciphertext gcmTag))
    (hid : chunk.chunkId = p.chunkId.bytes) :
    parseRecord (chunkRecord p ciphertext gcmTag) chunk = .ok
      { recordVersion := p.recordVersion
        chunkId := p.chunkId
        plainLen := p.plainLen
        nonce := p.nonce
        ciphertext
        gcmTag } := by
  have hfields := recordFields_chunkRecord p ciphertext gcmTag
  rw [parseRecord, cutRecord_chunkRecord hpoints, Prog.except_ok_bind, hfields.magic,
    if_neg (fun h => h rfl), hfields.chunkId, hid, vecToChunkId, fixedField_bytes,
    Prog.except_ok_bind, Prog.except_ok_bind, if_neg (fun h => h rfl)]
  exact parseFields_chunkRecord hlen hplain hfits

/-- A location with another identifier refuses the record. -/
theorem parseRecord_mismatch {other : ChunkId}
    (hpoints : PointsAt chunk (chunkRecord p ciphertext gcmTag))
    (hid : chunk.chunkId = other.bytes) (hother : p.chunkId ≠ other) :
    parseRecord (chunkRecord p ciphertext gcmTag) chunk =
      .error (.invalidPackRecord "chunk_id mismatch") := by
  have hfields := recordFields_chunkRecord p ciphertext gcmTag
  rw [parseRecord, cutRecord_chunkRecord hpoints, Prog.except_ok_bind, hfields.magic,
    if_neg (fun h => h rfl), hfields.chunkId, hid, vecToChunkId, vecToChunkId, fixedField_bytes,
    fixedField_bytes, Prog.except_ok_bind, Prog.except_ok_bind, if_pos hother]

end Parse

section Decrypt

open Downloader

variable {P : Primitives} {C : ChunkPrimitives P} {chunk : FileChunkLocation}

/-- The record of a V2 chunk, whatever its builder put into the fields that are not read. -/
structure V2RecordOf (C : ChunkPrimitives P) (dek : P.Key) (nonceDraw : ℕ) (plaintext record : Bytes)
    (p : ChunkRecordPrefix) : Prop where
  record_eq : record = chunkRecord p (encryptChunkV2 C dek nonceDraw plaintext []).ciphertext
    (encryptChunkV2 C dek nonceDraw plaintext []).gcmTag
  version : p.recordVersion = 2
  chunkId : p.chunkId = (encryptChunkV2 C dek nonceDraw plaintext []).chunkId
  nonce : p.nonce = (encryptChunkV2 C dek nonceDraw plaintext []).nonce
  plainLen : p.plainLen = plaintext.length
  cipherLen : p.cipherLen = (encryptChunkV2 C dek nonceDraw plaintext []).ciphertext.length

/-- A location with the right bounds, identifier and size reads the plaintext of a V2 record. -/
theorem V2RecordOf.decrypt (ideal : C.Ideal) {dek : P.Key} {nonceDraw : ℕ}
    {plaintext record : Bytes} {p : ChunkRecordPrefix}
    (h : V2RecordOf C dek nonceDraw plaintext record p) (hfits : plaintext.length + 96 < 2 ^ 64)
    (hpoints : PointsAt chunk record) (hid : chunk.chunkId = p.chunkId.bytes)
    (hsize : chunk.size = plaintext.length) (vaultKey : P.Key) :
    decryptChunkRecord C record chunk vaultKey (some dek) = .ok plaintext := by
  have hcipher : (encryptChunkV2 C dek nonceDraw plaintext []).ciphertext.length =
      plaintext.length := ideal.length_gcmEncrypt _ _ _ _
  have hplain : p.plainLen < 2 ^ 64 := by
    rw [h.plainLen]
    omega
  rw [h.record_eq] at hpoints ⊢
  have hparse := parseRecord_chunkRecord h.cipherLen hplain (by omega) hpoints hid
  have hdecrypt := decryptChunkV2Verified_encryptChunkV2 ideal dek nonceDraw plaintext []
  rw [decryptChunkRecord, hparse, Prog.except_ok_bind, decryptParsed, if_pos h.version]
  simp only [h.chunkId, h.nonce, hdecrypt, Except.mapError, Prog.except_ok_bind]
  rw [if_neg]
  · rfl
  · rw [hsize, h.plainLen]
    omega

end Decrypt

end OmniDrive
