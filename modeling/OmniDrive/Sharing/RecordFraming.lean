import OmniDrive.Crypto.SymbolicChunks
import OmniDrive.Library.CheckedSlices
import OmniDrive.Sharing.ServedChunks

/-!
# Two readers of a chunk record

The downloader takes a record apart to decrypt it, and a share link takes it apart to serve it.
The lengths come from the bytes of the pack and from the rows of the database. Here the two
readers are written out with the sums and the slices they make, and it is proved for which records
they agree and stay within their bounds.
-/

namespace OmniDrive

open ByteFields CheckedSlices StatementProgram

namespace Downloader

/-- The record that a location points at, with its size. -/
def recordAt (packBytes : Bytes) (chunk : FileChunkLocation) :
    Checked DownloaderError (Bytes × ℕ) := do
  let packOffset ← lift (toUsize chunk.packOffset "pack offset")
  let encryptedSize ← lift (toUsize chunk.encryptedSize "encrypted size")
  let recordEnd ← addOr (.numericOverflow "record end") packOffset encryptedSize
  if recordEnd > packBytes.length ∨ encryptedSize < ChunkRecordPrefix.size then
    reject (.invalidPackRecord "record bounds")
  else
    let record ← sliceAt packOffset recordEnd packBytes
    pure (record, encryptedSize)

/-- The sizes and the fields of a record whose identifier has been checked. -/
def frameFields (record : Bytes) (encryptedSize : ℕ) (recordVersion : UInt8) (chunkId : ChunkId) :
    Checked DownloaderError ParsedRecord := do
  let plainLen ← sliceAt 40 48 record
  let cipherLen ← sliceAt 48 56 record
  let prefixed ← addOr (.numericOverflow "record size") ChunkRecordPrefix.size (ofBe cipherLen)
  let expectedRecordSize ← addOr (.numericOverflow "record size") prefixed
    ChunkRecordPrefix.gcmTagSize
  if expectedRecordSize ≠ encryptedSize then reject (.invalidPackRecord "encrypted size mismatch")
  else
    let nonce ← sliceAt 56 68 record
    let nonce ← lift (fixedField 12 nonce "nonce")
    let ciphertextEnd ← add ChunkRecordPrefix.size (ofBe cipherLen)
    let tagEnd ← add ciphertextEnd ChunkRecordPrefix.gcmTagSize
    let ciphertext ← sliceAt ChunkRecordPrefix.size ciphertextEnd record
    let gcmTag ← sliceAt ciphertextEnd tagEnd record
    let gcmTag ← lift (fixedField 16 gcmTag "gcm tag")
    pure { recordVersion, chunkId, plainLen := ofBe plainLen, nonce, ciphertext, gcmTag }

/-- The framing part of `decrypt_chunk_record`. -/
def frameRecord (packBytes : Bytes) (chunk : FileChunkLocation) :
    Checked DownloaderError ParsedRecord := do
  let (record, encryptedSize) ← recordAt packBytes chunk
  let magic ← sliceAt 0 4 record
  if magic ≠ chunkRecordMagic then reject (.invalidPackRecord "chunk magic")
  else
    let recordVersion ← elementAt 4 record
    let expectedChunkId ← lift (vecToChunkId chunk.chunkId)
    let actualChunkId ← sliceAt 8 40 record
    let actualChunkId ← lift (vecToChunkId actualChunkId)
    if actualChunkId ≠ expectedChunkId then reject (.invalidPackRecord "chunk_id mismatch")
    else frameFields record encryptedSize recordVersion expectedChunkId

/-- `decrypt_chunk_record` with its faults. -/
def decryptFramed {P : Primitives} (C : ChunkPrimitives P) (packBytes : Bytes)
    (chunk : FileChunkLocation) (vaultKey : P.Key) (dek : Option P.Key) :
    Checked DownloaderError Bytes := do
  let record ← frameRecord packBytes chunk
  let plaintext ← lift (decryptParsed C record vaultKey dek)
  if (plaintext.length : ℤ) ≠ chunk.size ∨ plaintext.length ≠ record.plainLen then
    reject (.invalidPackRecord "plain size mismatch")
  else pure plaintext

/-- The fields of a record whose magic has been checked, up to the sum that is not checked. -/
def serveFields (record : Bytes) : Checked DownloaderError EncryptedChunkBytes := do
  let cipherLen ← sliceAt 48 56 record
  let nonce ← sliceAt 56 68 record
  let nonce ← lift (fixedField 12 nonce "nonce")
  let ciphertextEnd ← add ChunkRecordPrefix.size (ofBe cipherLen)
  let tagEnd ← add ciphertextEnd ChunkRecordPrefix.gcmTagSize
  if tagEnd > record.length then reject (.invalidPackRecord "record too short")
  else
    let ciphertext ← sliceAt ChunkRecordPrefix.size ciphertextEnd record
    let gcmTag ← sliceAt ciphertextEnd tagEnd record
    let gcmTag ← lift (fixedField 16 gcmTag "gcm tag")
    pure { nonce, ciphertext, gcmTag }

/-- `get_encrypted_chunk_bytes` on the bytes of its pack, with its faults. -/
def serveRecord (packBytes : Bytes) (chunk : FileChunkLocation) :
    Checked DownloaderError EncryptedChunkBytes := do
  let (record, _) ← recordAt packBytes chunk
  let magic ← sliceAt 0 4 record
  if magic ≠ chunkRecordMagic then reject (.invalidPackRecord "chunk magic")
  else serveFields record

/-- The size that a record declares: prefix, ciphertext and tag. -/
def declaredSize (record : Bytes) : ℕ :=
  ChunkRecordPrefix.size + ofBe (slice 48 56 record) + ChunkRecordPrefix.gcmTagSize

end Downloader

open Downloader

/-! ## The record of a location -/

section Cut

variable {packBytes : Bytes} {chunk : FileChunkLocation} {record : Bytes} {size : ℕ}

/-- A record has its size, which fits a word and covers at least the prefix. -/
structure RecordSized (record : Bytes) (size : ℕ) : Prop where
  length_eq : record.length = size
  prefix_le : 80 ≤ size
  lt_word : size < 2 ^ 64

/-- The record is cut out without faults. -/
theorem recordAt_cases (packBytes : Bytes) (chunk : FileChunkLocation) :
    (∃ err, recordAt packBytes chunk = reject err) ∨
      ∃ record size, recordAt packBytes chunk = .ok (record, size) ∧ RecordSized record size := by
  cases hoffset : toUsize chunk.packOffset "pack offset" with
  | error err =>
    refine .inl ⟨err, ?_⟩
    rw [recordAt, hoffset, lift_error, reject_bind]
  | ok offset =>
    cases hsize : toUsize chunk.encryptedSize "encrypted size" with
    | error err =>
      refine .inl ⟨err, ?_⟩
      rw [recordAt, hoffset, lift_ok, ok_bind, hsize, lift_error, reject_bind]
    | ok size =>
      rw [recordAt, hoffset, lift_ok, ok_bind, hsize, lift_ok, ok_bind]
      by_cases hend : offset + size < 2 ^ 64
      · rw [addOr_of_lt _ hend, ok_bind]
        by_cases hbounds : offset + size > packBytes.length ∨ size < ChunkRecordPrefix.size
        · rw [if_pos hbounds]
          exact .inl ⟨_, rfl⟩
        · have hle : offset + size ≤ packBytes.length := by omega
          have hprefix : ¬ size < 80 := fun h => hbounds (.inr h)
          rw [if_neg hbounds, sliceAt_of_le (by omega) hle]
          refine .inr ⟨_, size, rfl, ⟨?_, by omega, by omega⟩⟩
          rw [length_slice]
          omega
      · rw [addOr_of_le _ (by omega), reject_bind]
        exact .inl ⟨_, rfl⟩

theorem recordSized (h : recordAt packBytes chunk = .ok (record, size)) :
    RecordSized record size := by
  rcases recordAt_cases packBytes chunk with ⟨err, hreject⟩ | hok
  · rw [hreject] at h
    cases h
  · obtain ⟨record', size', hok, hsized⟩ := hok
    rw [hok] at h
    cases h
    exact hsized

end Cut

/-! ## What the readers do with a record -/

section Fields

variable {record : Bytes} {size : ℕ}

/-- Behind its checks the reader that decrypts has no faults: it is the reader of the model that
has none. -/
theorem frameFields_eq (hsized : RecordSized record size) (chunkId : ChunkId) :
    frameFields record size (record.getD 4 0) chunkId = lift (parseFields record chunkId) := by
  have hlength := hsized.length_eq
  have hprefix := hsized.prefix_le
  rw [frameFields, sliceAt_of_le (by omega) (by omega), ok_bind,
    sliceAt_of_le (by omega) (by omega), ok_bind, parseFields, ChunkRecordPrefix.size,
    ChunkRecordPrefix.gcmTagSize, hlength]
  generalize ofBe (slice 48 56 record) = cipherLen
  by_cases hfits : 80 + cipherLen + 16 < 2 ^ 64
  · rw [addOr_of_lt _ (by omega), ok_bind, addOr_of_lt _ hfits, ok_bind,
      if_neg (Nat.not_le.mpr hfits)]
    by_cases hfills : 80 + cipherLen + 16 = size
    · rw [if_neg (fun h => h hfills), if_neg (fun h => h hfills),
        sliceAt_of_le (by omega) (by omega), ok_bind, lift_bind]
      congr 1
      funext nonce
      rw [add_of_lt (by omega), ok_bind, add_of_lt hfits, ok_bind,
        sliceAt_of_le (by omega) (by omega), ok_bind, sliceAt_of_le (by omega) (by omega), ok_bind,
        lift_bind]
      rfl
    · rw [if_pos hfills, if_pos hfills, lift_error]
  · rw [if_pos (Nat.not_lt.mp hfits), lift_error]
    by_cases hprefixed : 80 + cipherLen < 2 ^ 64
    · rw [addOr_of_lt _ hprefixed, ok_bind, addOr_of_le _ (Nat.not_lt.mp hfits), reject_bind]
    · rw [addOr_of_le _ (Nat.not_lt.mp hprefixed), reject_bind]

/-- The reader that serves has a fault exactly where the size that a record declares does not fit a
word. -/
theorem serveFields_eq (hsized : RecordSized record size) :
    serveFields record =
      (lift (fixedField 12 (slice 56 68 record) "nonce") >>= fun nonce =>
        if 2 ^ 64 ≤ declaredSize record then .error .overflow
        else if declaredSize record > record.length then
          reject (.invalidPackRecord "record too short")
        else lift (fixedField 16 (slice (80 + ofBe (slice 48 56 record)) (declaredSize record) record)
          "gcm tag") >>= fun gcmTag => pure
            { nonce, ciphertext := slice 80 (80 + ofBe (slice 48 56 record)) record, gcmTag }) := by
  have hlength := hsized.length_eq
  have hprefix := hsized.prefix_le
  rw [serveFields, sliceAt_of_le (by omega) (by omega), ok_bind,
    sliceAt_of_le (by omega) (by omega), ok_bind, declaredSize, ChunkRecordPrefix.size,
    ChunkRecordPrefix.gcmTagSize]
  congr 1
  funext nonce
  generalize ofBe (slice 48 56 record) = cipherLen
  by_cases hfits : 80 + cipherLen + 16 < 2 ^ 64
  · rw [if_neg (Nat.not_le.mpr hfits), add_of_lt (by omega), ok_bind, add_of_lt hfits, ok_bind]
    by_cases hshort : 80 + cipherLen + 16 > record.length
    · rw [if_pos hshort, if_pos hshort]
    · rw [if_neg hshort, if_neg hshort, sliceAt_of_le (by omega) (by omega), ok_bind,
        sliceAt_of_le (by omega) (by omega), ok_bind]
  · rw [if_pos (Nat.not_lt.mp hfits)]
    by_cases hprefixed : 80 + cipherLen < 2 ^ 64
    · rw [add_of_lt hprefixed, ok_bind, add_of_le (Nat.not_lt.mp hfits)]
      rfl
    · rw [add_of_le (Nat.not_lt.mp hprefixed)]
      rfl

/-- A field within the bounds of a record converts to its length. -/
theorem fixedField_slice (record : Bytes) {i j n : ℕ} (hij : i + n = j) (hj : j ≤ record.length)
    (reason : String) : ∃ b : FixedBytes n, fixedField n (slice i j record) reason = .ok b := by
  have hlength : (slice i j record).length = n := by
    rw [length_slice]
    omega
  have hconverts : fixedField n (slice i j record) reason = .ok ⟨slice i j record, hlength⟩ :=
    fixedField_bytes (⟨slice i j record, hlength⟩ : FixedBytes n) reason
  exact ⟨_, hconverts⟩

/-- What the reader that decrypts accepts fills its size, and has these fields. -/
theorem parseFields_ok {chunkId : ChunkId} {parsed : ParsedRecord}
    (h : parseFields record chunkId = .ok parsed) :
    declaredSize record = record.length ∧ declaredSize record < 2 ^ 64 ∧
      fixedField 12 (slice 56 68 record) "nonce" = .ok parsed.nonce ∧
      fixedField 16 (slice (80 + ofBe (slice 48 56 record)) (declaredSize record) record)
        "gcm tag" = .ok parsed.gcmTag ∧
      parsed.ciphertext = slice 80 (80 + ofBe (slice 48 56 record)) record := by
  rw [parseFields] at h
  split at h
  · cases h
  · rename_i hword
    split at h
    · cases h
    · rename_i hfills
      cases hnonce : fixedField 12 (slice 56 68 record) "nonce" with
      | error err =>
        rw [hnonce] at h
        cases h
      | ok nonce =>
        rw [hnonce, Prog.except_ok_bind] at h
        cases htag : fixedField 16 (slice (80 + ofBe (slice 48 56 record)) (declaredSize record)
            record) "gcm tag" with
        | error err =>
          change (fixedField 16 (slice (80 + ofBe (slice 48 56 record)) (declaredSize record)
            record) "gcm tag" >>= _) = _ at h
          rw [htag] at h
          cases h
        | ok gcmTag =>
          change (fixedField 16 (slice (80 + ofBe (slice 48 56 record)) (declaredSize record)
            record) "gcm tag" >>= _) = _ at h
          rw [htag, Prog.except_ok_bind] at h
          cases h
          exact ⟨not_not.mp hfills, Nat.not_le.mp hword, rfl, rfl, rfl⟩

end Fields

section Readers

variable {packBytes : Bytes} {chunk : FileChunkLocation} {record : Bytes} {size : ℕ}

/-- A pack without a record at the location is rejected by both readers. -/
theorem rejects_of_recordAt {err : DownloaderError} (h : recordAt packBytes chunk = reject err) :
    frameRecord packBytes chunk = reject err ∧ serveRecord packBytes chunk = reject err := by
  rw [frameRecord, serveRecord, h]
  exact ⟨rfl, rfl⟩

/-- So is a record without the magic. -/
theorem rejects_of_magic (h : recordAt packBytes chunk = .ok (record, size))
    (hmagic : slice 0 4 record ≠ chunkRecordMagic) :
    frameRecord packBytes chunk = reject (.invalidPackRecord "chunk magic") ∧
      serveRecord packBytes chunk = reject (.invalidPackRecord "chunk magic") := by
  have hsized := recordSized h
  have hlength := hsized.length_eq
  have hprefix := hsized.prefix_le
  have hslice : sliceAt 0 4 record = (.ok (slice 0 4 record) : Checked DownloaderError Bytes) :=
    sliceAt_of_le (by omega) (by omega)
  constructor
  · simp only [frameRecord, h, ok_bind, hslice, if_pos hmagic]
  · simp only [serveRecord, h, ok_bind, hslice, if_pos hmagic]

/-- Of a record with its magic, the reader that decrypts checks the identifier and the sizes. -/
theorem frameRecord_of_magic (h : recordAt packBytes chunk = .ok (record, size))
    (hmagic : slice 0 4 record = chunkRecordMagic) :
    frameRecord packBytes chunk =
      lift (vecToChunkId chunk.chunkId >>= fun expectedChunkId =>
        vecToChunkId (slice 8 40 record) >>= fun actualChunkId =>
          if actualChunkId ≠ expectedChunkId then .error (.invalidPackRecord "chunk_id mismatch")
          else parseFields record expectedChunkId) := by
  have hsized := recordSized h
  have hlength := hsized.length_eq
  have hprefix := hsized.prefix_le
  rw [frameRecord, h, ok_bind, lift_bind]
  simp only [sliceAt_of_le (show 0 ≤ 4 by omega) (show 4 ≤ record.length by omega), ok_bind,
    if_neg (fun hne : slice 0 4 record ≠ chunkRecordMagic => hne hmagic),
    elementAt_of_lt (show 4 < record.length by omega) 0]
  congr 1
  funext expectedChunkId
  rw [sliceAt_of_le (by omega) (by omega), ok_bind, lift_bind]
  congr 1
  funext actualChunkId
  by_cases hid : actualChunkId = expectedChunkId
  · rw [if_neg (fun hne => hne hid), if_neg (fun hne => hne hid)]
    exact frameFields_eq hsized expectedChunkId
  · rw [if_pos hid, if_pos hid, lift_error]

/-- The reader that serves goes on to the fields. -/
theorem serveRecord_of_magic (h : recordAt packBytes chunk = .ok (record, size))
    (hmagic : slice 0 4 record = chunkRecordMagic) :
    serveRecord packBytes chunk = serveFields record := by
  have hsized := recordSized h
  have hlength := hsized.length_eq
  have hprefix := hsized.prefix_le
  rw [serveRecord, h, ok_bind]
  simp only [sliceAt_of_le (show 0 ≤ 4 by omega) (show 4 ≤ record.length by omega), ok_bind,
    if_neg (fun hne : slice 0 4 record ≠ chunkRecordMagic => hne hmagic)]

/-- What the reader that decrypts accepts is framed by the size of the record. -/
theorem frameRecord_ok {parsed : ParsedRecord} (h : recordAt packBytes chunk = .ok (record, size))
    (hframe : frameRecord packBytes chunk = .ok parsed) :
    slice 0 4 record = chunkRecordMagic ∧ ∃ chunkId, parseFields record chunkId = .ok parsed := by
  by_cases hmagic : slice 0 4 record = chunkRecordMagic
  · refine ⟨hmagic, ?_⟩
    rw [frameRecord_of_magic h hmagic, lift_eq_ok_iff] at hframe
    cases hexpected : vecToChunkId chunk.chunkId with
    | error err =>
      rw [hexpected] at hframe
      cases hframe
    | ok expectedChunkId =>
      rw [hexpected, Prog.except_ok_bind] at hframe
      cases hactual : vecToChunkId (slice 8 40 record) with
      | error err =>
        rw [hactual] at hframe
        cases hframe
      | ok actualChunkId =>
        rw [hactual, Prog.except_ok_bind] at hframe
        split at hframe
        · cases hframe
        · exact ⟨expectedChunkId, hframe⟩
  · rw [(rejects_of_magic h hmagic).1] at hframe
    cases hframe

theorem faultless_frameRecord (packBytes : Bytes) (chunk : FileChunkLocation) :
    Faultless (frameRecord packBytes chunk) := by
  rcases recordAt_cases packBytes chunk with ⟨err, h⟩ | hok
  · rw [(rejects_of_recordAt h).1]
    exact faultless_reject err
  · obtain ⟨record, size, h, -⟩ := hok
    by_cases hmagic : slice 0 4 record = chunkRecordMagic
    · rw [frameRecord_of_magic h hmagic]
      exact faultless_lift _
    · rw [(rejects_of_magic h hmagic).1]
      exact faultless_reject _

/-- Decrypting a record has no faults. -/
theorem faultless_decryptFramed {P : Primitives} (C : ChunkPrimitives P) (vaultKey : P.Key)
    (dek : Option P.Key) : Faultless (decryptFramed C packBytes chunk vaultKey dek) := by
  apply (faultless_frameRecord packBytes chunk).bind
  intro parsed _
  apply (faultless_lift _).bind
  intro plaintext _
  split
  · exact faultless_reject _
  · exact faultless_ok _

/-- Whether serving has a fault is decided by the size that the record declares. -/
theorem serveFields_overflow (hsized : RecordSized record size) (h : 2 ^ 64 ≤ declaredSize record) :
    serveFields record = .error .overflow := by
  have hlength := hsized.length_eq
  have hprefix := hsized.prefix_le
  obtain ⟨nonce, hnonce⟩ := fixedField_slice record (show 56 + 12 = 68 by omega)
    (by omega) "nonce"
  rw [serveFields_eq hsized, hnonce, lift_ok, ok_bind, if_pos h]

/-- A record that declares more than it has is rejected. -/
theorem serveFields_short (hsized : RecordSized record size) (hword : declaredSize record < 2 ^ 64)
    (hshort : size < declaredSize record) :
    serveFields record = reject (.invalidPackRecord "record too short") := by
  have hlength := hsized.length_eq
  have hprefix := hsized.prefix_le
  obtain ⟨nonce, hnonce⟩ := fixedField_slice record (show 56 + 12 = 68 by omega)
    (by omega) "nonce"
  rw [serveFields_eq hsized, hnonce, lift_ok, ok_bind, if_neg (Nat.not_le.mpr hword),
    if_pos (by omega)]

/-- A record that declares no more than it has is served, whatever follows the tag. -/
theorem serveFields_covers (hsized : RecordSized record size) (hle : declaredSize record ≤ size) :
    ∃ nonce gcmTag, fixedField 12 (slice 56 68 record) "nonce" = .ok nonce ∧
      fixedField 16 (slice (80 + ofBe (slice 48 56 record)) (declaredSize record) record)
        "gcm tag" = .ok gcmTag ∧
      serveFields record =
        .ok { nonce, ciphertext := slice 80 (80 + ofBe (slice 48 56 record)) record, gcmTag } := by
  have hlength := hsized.length_eq
  have hprefix := hsized.prefix_le
  have hword := hsized.lt_word
  obtain ⟨nonce, hnonce⟩ := fixedField_slice record (show 56 + 12 = 68 by omega)
    (by omega) "nonce"
  obtain ⟨gcmTag, htag⟩ := fixedField_slice record
    (show 80 + ofBe (slice 48 56 record) + 16 = declaredSize record from rfl) (by omega) "gcm tag"
  refine ⟨nonce, gcmTag, hnonce, htag, ?_⟩
  rw [serveFields_eq hsized, hnonce, lift_ok, ok_bind, if_neg (by omega), if_neg (by omega), htag,
    lift_ok, ok_bind]
  rfl

end Readers

/-! ## Where the readers agree -/

/-- The two readers stay within their bounds, the one that serves returns the fields that the one
that decrypts passes on, and both reject a record that does not fill its size. -/
structure ReadersAgree {P : Primitives} (C : ChunkPrimitives P) (packBytes : Bytes)
    (chunk : FileChunkLocation) : Prop where
  decrypting : ∀ vaultKey dek, Faultless (decryptFramed C packBytes chunk vaultKey dek)
  serving : Faultless (serveRecord packBytes chunk)
  fields : ∀ parsed, frameRecord packBytes chunk = .ok parsed →
    serveRecord packBytes chunk =
      .ok { nonce := parsed.nonce, ciphertext := parsed.ciphertext, gcmTag := parsed.gcmTag }
  filled : ∀ record size, recordAt packBytes chunk = .ok (record, size) →
    declaredSize record ≠ size →
      Rejects (frameRecord packBytes chunk) ∧ Rejects (serveRecord packBytes chunk)

/-- A record with its magic declares its own size, or one that is larger and fits a word. -/
def DeclaresFit (packBytes : Bytes) (chunk : FileChunkLocation) : Prop :=
  ∀ record size, recordAt packBytes chunk = .ok (record, size) →
    slice 0 4 record = chunkRecordMagic →
      declaredSize record = size ∨ size < declaredSize record ∧ declaredSize record < 2 ^ 64

section Agreement

variable {packBytes : Bytes} {chunk : FileChunkLocation} {record : Bytes} {size : ℕ}

/-- The reader that decrypts rejects every record that does not fill its size. -/
theorem rejects_frameRecord (h : recordAt packBytes chunk = .ok (record, size))
    (hfill : declaredSize record ≠ size) : Rejects (frameRecord packBytes chunk) := by
  have hsized := recordSized h
  have hfaultless := faultless_frameRecord packBytes chunk
  cases hframe : frameRecord packBytes chunk with
  | ok parsed =>
    obtain ⟨-, chunkId, hparse⟩ := frameRecord_ok h hframe
    have hdeclared := (parseFields_ok hparse).1
    rw [hsized.length_eq] at hdeclared
    exact absurd hdeclared hfill
  | error stop =>
    cases stop with
    | rejected err => exact ⟨err, rfl⟩
    | overflow => exact absurd hframe hfaultless.1
    | outOfBounds => exact absurd hframe hfaultless.2

/-- A record that declares a fitting size is served without faults. -/
theorem faultless_serveRecord (hfit : DeclaresFit packBytes chunk) :
    Faultless (serveRecord packBytes chunk) := by
  rcases recordAt_cases packBytes chunk with ⟨err, h⟩ | ⟨record, size, h, hsized⟩
  · rw [(rejects_of_recordAt h).2]
    exact faultless_reject err
  · by_cases hmagic : slice 0 4 record = chunkRecordMagic
    · rw [serveRecord_of_magic h hmagic]
      rcases hfit record size h hmagic with hfill | ⟨hshort, hword⟩
      · obtain ⟨nonce, gcmTag, -, -, hserve⟩ := serveFields_covers hsized (Nat.le_of_eq hfill)
        rw [hserve]
        exact faultless_ok _
      · rw [serveFields_short hsized hword hshort]
        exact faultless_reject _
    · rw [(rejects_of_magic h hmagic).2]
      exact faultless_reject _

/-- The record that one reader accepts is served with the same fields. -/
theorem serveRecord_of_frameRecord {parsed : ParsedRecord}
    (hframe : frameRecord packBytes chunk = .ok parsed) :
    serveRecord packBytes chunk =
      .ok { nonce := parsed.nonce, ciphertext := parsed.ciphertext, gcmTag := parsed.gcmTag } := by
  rcases recordAt_cases packBytes chunk with ⟨err, h⟩ | ⟨record, size, h, hsized⟩
  · rw [(rejects_of_recordAt h).1] at hframe
    cases hframe
  · obtain ⟨hmagic, chunkId, hparse⟩ := frameRecord_ok h hframe
    obtain ⟨hdeclared, -, hnonce, htag, hcipher⟩ := parseFields_ok hparse
    have hle : declaredSize record ≤ size := by
      rw [hdeclared, hsized.length_eq]
    obtain ⟨nonce, gcmTag, hnonce', htag', hserve⟩ := serveFields_covers hsized hle
    have hsame : nonce = parsed.nonce := Except.ok.inj (hnonce'.symm.trans hnonce)
    have hsameTag : gcmTag = parsed.gcmTag := Except.ok.inj (htag'.symm.trans htag)
    rw [serveRecord_of_magic h hmagic, hserve, hsame, hsameTag, hcipher]

/-- A record that does not fill its size, and declares a fitting one, is rejected by the reader
that serves. -/
theorem rejects_serveRecord (hfit : DeclaresFit packBytes chunk)
    (h : recordAt packBytes chunk = .ok (record, size)) (hfill : declaredSize record ≠ size) :
    Rejects (serveRecord packBytes chunk) := by
  have hsized := recordSized h
  by_cases hmagic : slice 0 4 record = chunkRecordMagic
  · rcases hfit record size h hmagic with heq | ⟨hshort, hword⟩
    · exact absurd heq hfill
    · rw [serveRecord_of_magic h hmagic]
      exact ⟨_, serveFields_short hsized hword hshort⟩
  · exact ⟨_, (rejects_of_magic h hmagic).2⟩

/-- Readers that agree have only met records that declare a fitting size. -/
theorem declaresFit_of_agree {P : Primitives} {C : ChunkPrimitives P}
    (hagree : ReadersAgree C packBytes chunk) : DeclaresFit packBytes chunk := by
  intro record size h hmagic
  have hsized := recordSized h
  have hserve := serveRecord_of_magic h hmagic
  by_cases hword : declaredSize record < 2 ^ 64
  · by_cases hfill : declaredSize record = size
    · exact .inl hfill
    · obtain ⟨err, hreject⟩ := (hagree.filled record size h hfill).2
      rcases Nat.lt_or_ge size (declaredSize record) with hshort | hle
      · exact .inr ⟨hshort, hword⟩
      · obtain ⟨nonce, gcmTag, -, -, hserved⟩ := serveFields_covers hsized hle
        rw [hserve, hserved] at hreject
        cases hreject
  · have hoverflow := serveFields_overflow hsized (Nat.not_lt.mp hword)
    exact absurd (hserve.trans hoverflow) hagree.serving.1

end Agreement

/-! ## The readers of the model without faults -/

section Connection

variable {packBytes : Bytes} {chunk : FileChunkLocation}

/-- The positions of a location are columns, whose sum fits a word. -/
structure ColumnPositions (chunk : FileChunkLocation) : Prop where
  offset : chunk.packOffset < 2 ^ 63
  size : chunk.encryptedSize < 2 ^ 63

/-- A conversion that succeeds keeps the value. -/
theorem toUsize_ok {value : ℤ} {context : String} {n : ℕ} (h : toUsize value context = .ok n) :
    (n : ℤ) = value := by
  rw [toUsize] at h
  split at h
  · rename_i hvalue
    rw [← Except.ok.inj h, Int.toNat_of_nonneg hvalue]
  · cases h

theorem recordAt_eq (packBytes : Bytes) (h : ColumnPositions chunk) :
    recordAt packBytes chunk =
      lift (cutRecord packBytes chunk >>= fun record => .ok (record, record.length)) := by
  have hoffsetLt := h.offset
  have hsizeLt := h.size
  cases hoffset : toUsize chunk.packOffset "pack offset" with
  | error err =>
    rw [recordAt, cutRecord, hoffset]
    rfl
  | ok offset =>
    cases hsize : toUsize chunk.encryptedSize "encrypted size" with
    | error err =>
      rw [recordAt, cutRecord, hoffset, hsize]
      rfl
    | ok size =>
      have hoffsetEq := toUsize_ok hoffset
      have hsizeEq := toUsize_ok hsize
      rw [recordAt, cutRecord, hoffset, lift_ok, ok_bind, hsize, lift_ok, ok_bind,
        addOr_of_lt _ (by omega), ok_bind, Prog.except_ok_bind, Prog.except_ok_bind]
      by_cases hbounds : offset + size > packBytes.length ∨ size < ChunkRecordPrefix.size
      · rw [if_pos hbounds, if_pos hbounds]
        rfl
      · have hlength : (slice offset (offset + size) packBytes).length = size := by
          rw [length_slice]
          omega
        rw [if_neg hbounds, if_neg hbounds, sliceAt_of_le (by omega) (by omega), ok_bind]
        change _ = lift (.ok (slice offset (offset + size) packBytes,
          (slice offset (offset + size) packBytes).length))
        rw [hlength]
        rfl

/-- On the rows of the database the framing is the parser of the model. -/
theorem frameRecord_eq (h : ColumnPositions chunk) :
    frameRecord packBytes chunk = lift (parseRecord packBytes chunk) := by
  have hcut := recordAt_eq packBytes h
  cases hrecord : cutRecord packBytes chunk with
  | error err =>
    rw [hrecord] at hcut
    rw [(rejects_of_recordAt hcut).1, parseRecord, hrecord]
    rfl
  | ok record =>
    rw [hrecord] at hcut
    by_cases hmagic : slice 0 4 record = chunkRecordMagic
    · rw [frameRecord_of_magic hcut hmagic, parseRecord, hrecord, Prog.except_ok_bind,
        if_neg (fun hne => hne hmagic)]
    · rw [(rejects_of_magic hcut hmagic).1, parseRecord, hrecord, Prog.except_ok_bind,
        if_pos hmagic]
      rfl

/-- So is the decryption. -/
theorem decryptFramed_eq {P : Primitives} (C : ChunkPrimitives P) (h : ColumnPositions chunk)
    (vaultKey : P.Key) (dek : Option P.Key) :
    decryptFramed C packBytes chunk vaultKey dek =
      lift (decryptChunkRecord C packBytes chunk vaultKey dek) := by
  rw [decryptFramed, frameRecord_eq h, decryptChunkRecord, lift_bind]
  congr 1
  funext record
  rw [lift_bind]
  congr 1
  funext plaintext
  split <;> rfl

/-- Where a record declares a fitting size, serving it is the reader of the model. -/
theorem serveRecord_eq (h : ColumnPositions chunk) (hfit : DeclaresFit packBytes chunk) :
    serveRecord packBytes chunk =
      lift (cutRecord packBytes chunk >>= fun record => encryptedFields record) := by
  have hcut := recordAt_eq packBytes h
  cases hrecord : cutRecord packBytes chunk with
  | error err =>
    rw [hrecord] at hcut
    rw [(rejects_of_recordAt hcut).2]
    rfl
  | ok record =>
    rw [hrecord] at hcut
    have hsized := recordSized hcut
    have hword := hsized.lt_word
    rw [Prog.except_ok_bind, encryptedFields]
    by_cases hmagic : slice 0 4 record = chunkRecordMagic
    · have hdeclares : ¬ 2 ^ 64 ≤ declaredSize record := by
        rcases hfit _ _ hcut hmagic with hfill | ⟨-, hlt⟩ <;> omega
      rw [serveRecord_of_magic hcut hmagic, serveFields_eq hsized, if_neg (fun hne => hne hmagic),
        lift_bind]
      congr 1
      funext nonce
      rw [if_neg hdeclares]
      change _ = lift (if declaredSize record > record.length then _ else _)
      by_cases hshort : declaredSize record > record.length
      · rw [if_pos hshort, if_pos hshort]
        rfl
      · rw [if_neg hshort, if_neg hshort, lift_bind]
        rfl
    · rw [(rejects_of_magic hcut hmagic).2, if_pos hmagic]
      rfl

end Connection

/-- The two readers agree on a pack and a location exactly where the record declares a fitting
size. -/
theorem readers_agree_iff {P : Primitives} (C : ChunkPrimitives P) (packBytes : Bytes)
    (chunk : FileChunkLocation) :
    ReadersAgree C packBytes chunk ↔ DeclaresFit packBytes chunk := by
  constructor
  · exact declaresFit_of_agree
  · intro hfit
    exact
      { decrypting := fun vaultKey dek => faultless_decryptFramed C vaultKey dek
        serving := faultless_serveRecord hfit
        fields := fun _ hframe => serveRecord_of_frameRecord hframe
        filled := fun _ _ h hfill => ⟨rejects_frameRecord h hfill, rejects_serveRecord hfit h hfill⟩ }

/-- A pack of one prefix that declares the largest ciphertext. -/
def overlongPack : Bytes := chunkRecordMagic ++ List.replicate 44 0 ++ List.replicate 8 255 ++
  List.replicate 24 0

def overlongLocation : FileChunkLocation where
  chunkId := List.replicate 32 0
  chunkIndex := 0
  fileOffset := 0
  size := 4
  packId := "pack"
  packOffset := 0
  encryptedSize := 80

/-- The largest length overflows the sum of the reader that serves. -/
theorem readers_disagree : ¬ ReadersAgree symbolicChunks overlongPack overlongLocation := by
  intro hagree
  have hoverflow : serveRecord overlongPack overlongLocation = .error .overflow := by
    decide +kernel
  exact hagree.serving.1 hoverflow

end OmniDrive
