import OmniDrive.Backup.RosterFetch
import OmniDrive.Crypto.SymbolicChunks
import OmniDrive.Library.CheckedSlices

/-!
# The files that the backup parser accepts

The parser of the metadata backup, written out with the sums and the slices it makes, and the
files it accepts: the encodings of the parts it returns. The two ways to decrypt a backup, with
the passphrase and with the master key, agree on every file.
-/

namespace OmniDrive

open ByteFields CheckedSlices

namespace Backup

variable {P : Primitives}

/-! ## The parser with its faults -/

section Checked

/-- `u16::from_le_bytes` or `u32::from_le_bytes` of the bytes at the cursor. -/
def numberAt (n : ℕ) (field : String) (cursor : ℕ) (encoded : Bytes) :
    Checked DisasterRecoveryError ℕ := do
  let fieldEnd ← add cursor n
  let bytes ← sliceAt cursor fieldEnd encoded
  if bytes.length ≠ n then reject (.invalidBackupFormat field)
  else pure (ofLe bytes)

/-- `get` of the bytes at the cursor. -/
def rangeAt (n : ℕ) (field : String) (cursor : ℕ) (encoded : Bytes) :
    Checked DisasterRecoveryError Bytes := do
  let fieldEnd ← add cursor n
  ofOption (.invalidBackupFormat field) (getRange cursor fieldEnd encoded)

/-- `try_into` an array. -/
def arrayOf (n : ℕ) (field : String) (bytes : Bytes) :
    Checked DisasterRecoveryError (FixedBytes n) :=
  ofOption (.invalidBackupFormat field) (FixedBytes.tryFrom n bytes)

/-- The part of the parser behind the fixed header. -/
def parseBehindHeader (encoded : Bytes) (saltLen parameterSetVersion memoryCostKib timeCost lanes
    cursor : ℕ) : Checked DisasterRecoveryError MetadataBackupParsed := do
  let nonce ← rangeAt metadataBackupNonceLen "nonce" cursor encoded
  let nonce ← arrayOf 12 "nonce" nonce
  let cursor ← add cursor metadataBackupNonceLen
  let salt ← rangeAt saltLen "salt" cursor encoded
  let cursor ← add cursor saltLen
  let needed ← add cursor metadataBackupTagLen
  if encoded.length < needed then reject (.invalidBackupFormat "ciphertext missing")
  else
    let ciphertextEnd ← sub encoded.length metadataBackupTagLen
    let ciphertext ← sliceAt cursor ciphertextEnd encoded
    let tag ← sliceAt ciphertextEnd encoded.length encoded
    let tag ← arrayOf 16 "tag" tag
    pure
      { kdf := { parameterSetVersion, salt, memoryCostKib, timeCost, lanes }
        nonce
        ciphertext
        tag }

/-- `parse_metadata_backup` with its faults. -/
def parseChecked (encoded : Bytes) : Checked DisasterRecoveryError MetadataBackupParsed := do
  if encoded.length < metadataBackupHeaderFixedLen + metadataBackupTagLen then
    reject (.invalidBackupFormat "file too short")
  else
    let magicEnd := metadataBackupMagic.length
    let magic ← sliceAt 0 magicEnd encoded
    if magic ≠ metadataBackupMagic then reject (.invalidBackupFormat "magic mismatch")
    else
      let version ← elementAt magicEnd encoded
      if version ≠ metadataBackupVersion then
        reject (.invalidBackupFormat "unsupported backup version")
      else
        let cursor ← add magicEnd 1
        let saltLen ← numberAt 2 "salt_len" cursor encoded
        let cursor ← add cursor 2
        let parameterSetVersion ← numberAt 4 "parameter_set_version" cursor encoded
        let cursor ← add cursor 4
        let memoryCostKib ← numberAt 4 "memory_cost_kib" cursor encoded
        let cursor ← add cursor 4
        let timeCost ← numberAt 4 "time_cost" cursor encoded
        let cursor ← add cursor 4
        let lanes ← numberAt 4 "lanes" cursor encoded
        let cursor ← add cursor 4
        parseBehindHeader encoded saltLen parameterSetVersion memoryCostKib timeCost lanes cursor

variable {encoded : Bytes}

/-- A number within bounds is read. -/
theorem numberAt_of_le {n cursor : ℕ} (field : String) (hword : cursor + n < 2 ^ 64)
    (h : cursor + n ≤ encoded.length) :
    numberAt n field cursor encoded = .ok (ofLe (slice cursor (cursor + n) encoded)) := by
  have hlength : (slice cursor (cursor + n) encoded).length = n := by
    rw [length_slice]
    omega
  rw [numberAt, add_of_lt hword, ok_bind, sliceAt_of_le (by omega) h, ok_bind,
    if_neg (not_not.mpr hlength)]
  rfl

/-- The parser has no faults: it is the parser of the model that has none. -/
theorem parseChecked_eq (encoded : Bytes) :
    parseChecked encoded = lift (parseMetadataBackup encoded) := by
  have hmagicEnd : metadataBackupMagic.length = 15 := rfl
  have hfixed : metadataBackupHeaderFixedLen = 46 := rfl
  have htagLen : metadataBackupTagLen = 16 := rfl
  rw [parseChecked, parseMetadataBackup]
  by_cases hshort : encoded.length < metadataBackupHeaderFixedLen + metadataBackupTagLen
  · rw [if_pos hshort, if_pos hshort]
    rfl
  have hsalt : ofLe (slice 16 18 encoded) < 256 ^ 2 := by
    have hlt := ofLe_lt (slice 16 18 encoded)
    have hlength : (slice 16 18 encoded).length = 2 := by
      rw [length_slice]
      omega
    rwa [hlength] at hlt
  rw [if_neg hshort, if_neg hshort, hmagicEnd]
  dsimp only
  rw [sliceAt_of_le (by omega) (by omega), ok_bind]
  by_cases hmagic : slice 0 15 encoded ≠ metadataBackupMagic
  · rw [if_pos hmagic, if_pos hmagic]
    rfl
  rw [if_neg hmagic, if_neg hmagic, elementAt_of_lt (by omega) 0, ok_bind,
    slice_single (by omega) 0]
  by_cases hversion : encoded.getD 15 0 ≠ metadataBackupVersion
  · rw [if_pos hversion, if_pos (List.singleton_inj.not.mpr hversion)]
    rfl
  -- the numbers of the fixed header lie within the shortest file
  rw [if_neg hversion, if_neg (not_not.mpr (List.singleton_inj.mpr (not_not.mp hversion))),
    add_of_lt (by decide), ok_bind,
    numberAt_of_le _ (by decide) (by omega), ok_bind, add_of_lt (by decide), ok_bind,
    numberAt_of_le _ (by decide) (by omega), ok_bind, add_of_lt (by decide), ok_bind,
    numberAt_of_le _ (by decide) (by omega), ok_bind, add_of_lt (by decide), ok_bind,
    numberAt_of_le _ (by decide) (by omega), ok_bind, add_of_lt (by decide), ok_bind,
    numberAt_of_le _ (by decide) (by omega), ok_bind, add_of_lt (by decide), ok_bind]
  change parseBehindHeader encoded (ofLe (slice 16 18 encoded)) (ofLe (slice 18 22 encoded))
    (ofLe (slice 22 26 encoded)) (ofLe (slice 26 30 encoded)) (ofLe (slice 30 34 encoded)) 34 = _
  have hnonce : getRange 34 46 encoded = some (slice 34 46 encoded) := if_pos (by omega)
  rw [parseBehindHeader, rangeAt, metadataBackupNonceLen, add_of_lt (by decide), ok_bind, hnonce,
    Option.bind_some, ofOption_some, ok_bind, arrayOf]
  cases FixedBytes.tryFrom 12 (slice 34 46 encoded) with
  | none => rfl
  | some nonce =>
    change (rangeAt (ofLe (slice 16 18 encoded)) "salt" 46 encoded >>= _) = _
    rw [rangeAt, add_of_lt (by omega), ok_bind]
    cases getRange 46 (46 + ofLe (slice 16 18 encoded)) encoded with
    | none => rfl
    | some salt =>
      -- behind the salt, only the test for the tag keeps the last slices within the file
      rw [ofOption_some, ok_bind, ok_bind, add_of_lt (by omega), ok_bind]
      dsimp only
      by_cases hmissing : encoded.length < 46 + ofLe (slice 16 18 encoded) + metadataBackupTagLen
      · rw [if_pos hmissing, if_pos hmissing]
        rfl
      · rw [if_neg hmissing, if_neg hmissing, sub_of_le (by omega), ok_bind,
          sliceAt_of_le (by omega) (Nat.sub_le _ _), ok_bind,
          sliceAt_of_le (Nat.sub_le _ _) (Nat.le_refl _), ok_bind, arrayOf]
        cases FixedBytes.tryFrom 16
          (slice (encoded.length - metadataBackupTagLen) encoded.length encoded) with
        | none => rfl
        | some tag => rfl

end Checked

/-! ## What is accepted -/

section Accepted

variable {encoded : Bytes} {b : MetadataBackupParsed}

theorem getRange_eq_some {i j : ℕ} {bytes : Bytes} (h : getRange i j encoded = some bytes) :
    j ≤ encoded.length ∧ bytes = slice i j encoded := by
  rw [getRange] at h
  split_ifs at h with hj
  exact ⟨hj, (Option.some.inj h).symm⟩

theorem bytes_of_tryFrom {n : ℕ} {bytes : Bytes} {array : FixedBytes n}
    (h : FixedBytes.tryFrom n bytes = some array) : array.bytes = bytes := by
  rw [FixedBytes.tryFrom] at h
  split_ifs at h with hlength
  rw [← Option.some.inj h]

/-- A file of at least the fixed length is the sequence of its fields. -/
theorem eq_append_fields {saltEnd ciphertextEnd : ℕ} (hsalt : 46 ≤ saltEnd)
    (hciphertext : saltEnd ≤ ciphertextEnd) (hend : ciphertextEnd ≤ encoded.length) :
    encoded = slice 0 15 encoded ++ (slice 15 16 encoded ++ (slice 16 18 encoded ++
      (slice 18 22 encoded ++ (slice 22 26 encoded ++ (slice 26 30 encoded ++
      (slice 30 34 encoded ++ (slice 34 46 encoded ++ (slice 46 saltEnd encoded ++
      (slice saltEnd ciphertextEnd encoded ++
        slice ciphertextEnd encoded.length encoded))))))))) := by
  rw [slice_to_end, ← drop_eq_slice_append hciphertext, ← drop_eq_slice_append hsalt,
    ← drop_eq_slice_append (by decide), ← drop_eq_slice_append (by decide),
    ← drop_eq_slice_append (by decide), ← drop_eq_slice_append (by decide),
    ← drop_eq_slice_append (by decide), ← drop_eq_slice_append (by decide),
    ← drop_eq_slice_append (by decide), ← drop_eq_slice_append (by decide), List.drop_zero]

/-- The files that are accepted are the encodings of what they are parsed to. -/
theorem parseMetadataBackup_eq_ok :
    parseMetadataBackup encoded = .ok b ↔ encoded = b.encode ∧ FitsHeader b.kdf := by
  constructor
  · intro h
    have hfixed : metadataBackupHeaderFixedLen = 46 := rfl
    have htagLen : metadataBackupTagLen = 16 := rfl
    rw [parseMetadataBackup] at h
    split_ifs at h with hshort hmagic hversion
    dsimp only at h
    cases hnonce : (getRange 34 46 encoded).bind (FixedBytes.tryFrom 12) with
    | none =>
      rw [hnonce] at h
      cases h
    | some nonce =>
      cases hsalt : getRange 46 (46 + ofLe (slice 16 18 encoded)) encoded with
      | none =>
        rw [hnonce, hsalt] at h
        cases h
      | some salt =>
        simp only [hnonce, hsalt] at h
        split_ifs at h with hmissing
        cases htag : FixedBytes.tryFrom 16
            (slice (encoded.length - metadataBackupTagLen) encoded.length encoded) with
        | none =>
          rw [htag] at h
          cases h
        | some tag =>
          rw [htag] at h
          obtain rfl := Except.ok.inj h
          have hfield : ∀ i n, i + n ≤ 46 → (slice i (i + n) encoded).length = n := by
            intro i n hn
            rw [length_slice]
            omega
          obtain ⟨nonceBytes, hrange, hsized⟩ := Option.bind_eq_some_iff.mp hnonce
          obtain ⟨-, rfl⟩ := getRange_eq_some hrange
          obtain ⟨hsaltEnd, rfl⟩ := getRange_eq_some hsalt
          have hsaltLength : (slice 46 (46 + ofLe (slice 16 18 encoded)) encoded).length =
              ofLe (slice 16 18 encoded) := by
            rw [length_slice]
            omega
          have hnumber : ∀ i, i + 4 ≤ 46 → ofLe (slice i (i + 4) encoded) < 256 ^ 4 := by
            intro i hi
            have hlt := ofLe_lt (slice i (i + 4) encoded)
            rwa [hfield i 4 hi] at hlt
          constructor
          · rw [MetadataBackupParsed.encode]
            dsimp only
            rw [hsaltLength, toLe_ofLe (hfield 16 2 (by decide)),
              toLe_ofLe (hfield 18 4 (by decide)), toLe_ofLe (hfield 22 4 (by decide)),
              toLe_ofLe (hfield 26 4 (by decide)), toLe_ofLe (hfield 30 4 (by decide)),
              bytes_of_tryFrom hsized, bytes_of_tryFrom htag, ← not_not.mp hmagic,
              ← not_not.mp hversion]
            exact eq_append_fields (by omega) (by omega) (by omega)
          · refine ⟨hnumber 18 (by decide), hnumber 22 (by decide), hnumber 26 (by decide),
              hnumber 30 (by decide), ?_⟩
            have hlt := ofLe_lt (slice 16 18 encoded)
            rw [hfield 16 2 (by decide)] at hlt
            rwa [hsaltLength]
  · rintro ⟨rfl, hfits⟩
    exact parseMetadataBackup_encode hfits

end Accepted

/-! ## Both decryptions -/

/-- The key that the cache gives is the one of the master key of the passphrase. -/
theorem backupKey_of_sound {passphrase : String} {cache : MetadataBackupKeyCache P}
    (h : cache.Sound passphrase) {kdf : RootKdfParams} {rootKeys : RootKeys P}
    (hroot : deriveRootKeys P passphrase kdf = some rootKeys) :
    (cache.backupKey passphrase kdf).1 = .ok (deriveMetadataBackupKey rootKeys.masterKey) := by
  rw [(MetadataBackupKeyCache.backupKey_sound h kdf).1, MetadataBackupKeyCache.backupKey,
    List.find?_nil, hroot]

/-- A file that is not parsed is refused by both, and every other one is opened under the key of
its own parameters. -/
theorem decryptions_agree (C : ChunkPrimitives P) {passphrase : String}
    {cache : MetadataBackupKeyCache P} (h : cache.Sound passphrase) {encoded : Bytes}
    {masterKey : P.Key} (hmaster : ∀ b, parseMetadataBackup encoded = .ok b →
      P.argon2 passphrase b.kdf = some masterKey) :
    (decryptMetadataBackup C passphrase cache encoded).1 =
      decryptMetadataBackupWithMaster C encoded masterKey := by
  rw [decryptMetadataBackup, decryptMetadataBackupWithMaster]
  cases hparsed : parseMetadataBackup encoded with
  | error e => rfl
  | ok b =>
    have hroot := deriveRootKeys_eq_some.mpr ⟨masterKey, hmaster b hparsed, rfl⟩
    have hkey := backupKey_of_sound h hroot
    dsimp only
    generalize cache.backupKey passphrase b.kdf = outcome at hkey
    obtain ⟨result, cache'⟩ := outcome
    obtain rfl : result = _ := hkey
    rfl

/-- The parts that an encryption writes. -/
def writtenParts (C : ChunkPrimitives P) (masterKey : P.Key) (kdf : RootKdfParams)
    (nonceDraw : ℕ) (input : Bytes) : MetadataBackupParsed :=
  let nonce := C.randomNonce nonceDraw
  let (ciphertext, tag) := C.gcmEncrypt (deriveMetadataBackupKey masterKey) nonce [] input
  { kdf, nonce, ciphertext, tag }

/-- The metadata backup round-trips: what is written is parsed to its parts, what is parsed is the
encoding of its parts, no file makes the parser fail otherwise than by an error, and the
passphrase and the master key open the same files. -/
theorem metadata_backup_round_trips (C : ChunkPrimitives P) (ideal : C.Ideal) :
    (∀ (masterKey : P.Key) (kdf : RootKdfParams) (nonceDraw : ℕ) (input : Bytes), FitsHeader kdf →
      ∃ encoded, encryptMetadataSnapshot C masterKey kdf nonceDraw input = .ok encoded ∧
        parseMetadataBackup encoded = .ok (writtenParts C masterKey kdf nonceDraw input) ∧
        decryptMetadataBackupWithMaster C encoded masterKey = .ok input) ∧
    (∀ b : MetadataBackupParsed, FitsHeader b.kdf → parseMetadataBackup b.encode = .ok b) ∧
    (∀ encoded, Faultless (parseChecked encoded) ∧
      parseChecked encoded = lift (parseMetadataBackup encoded)) ∧
    (∀ encoded b, parseMetadataBackup encoded = .ok b → encoded = b.encode) ∧
    (∀ encoded encoded' b, parseMetadataBackup encoded = .ok b →
      parseMetadataBackup encoded' = .ok b → encoded = encoded') ∧
    (∀ (passphrase : String) (cache : MetadataBackupKeyCache P) (encoded : Bytes)
      (masterKey : P.Key), cache.Sound passphrase →
      (∀ b, parseMetadataBackup encoded = .ok b → P.argon2 passphrase b.kdf = some masterKey) →
      (decryptMetadataBackup C passphrase cache encoded).1 =
        decryptMetadataBackupWithMaster C encoded masterKey) := by
  refine ⟨?_, ?_, ?_, ?_, ?_, ?_⟩
  · intro masterKey kdf nonceDraw input hfits
    have hparsed : parseMetadataBackup (writtenParts C masterKey kdf nonceDraw input).encode =
        .ok (writtenParts C masterKey kdf nonceDraw input) := parseMetadataBackup_encode hfits
    refine ⟨(writtenParts C masterKey kdf nonceDraw input).encode, if_pos hfits.salt, hparsed, ?_⟩
    rw [decryptMetadataBackupWithMaster, hparsed]
    simp only [MetadataBackupParsed.open, writtenParts, ideal.gcmDecrypt_gcmEncrypt]
  · intro b hfits
    exact parseMetadataBackup_encode hfits
  · intro encoded
    rw [parseChecked_eq]
    exact ⟨faultless_lift _, rfl⟩
  · intro encoded b h
    exact (parseMetadataBackup_eq_ok.mp h).1
  · intro encoded encoded' b h h'
    rw [(parseMetadataBackup_eq_ok.mp h).1, (parseMetadataBackup_eq_ok.mp h').1]
  · intro passphrase cache encoded masterKey hsound hmaster
    exact decryptions_agree C hsound hmaster

theorem metadata_backup_round_trips_threeBytes :
    ∃ encoded, encryptMetadataSnapshot symbolicChunks
        (SymbolicKey.argon2 "battery staple" ⟨1, [7, 7], 64, 3, 1⟩) ⟨1, [7, 7], 64, 3, 1⟩ 4
        [1, 2, 3] = .ok encoded ∧
      (decryptMetadataBackup symbolicChunks "battery staple" [] encoded).1 = .ok [1, 2, 3] := by
  obtain ⟨hwritten, -, -, -, -, hagree⟩ :=
    metadata_backup_round_trips symbolicChunks symbolicChunks_ideal
  obtain ⟨encoded, hencrypt, hparsed, hopen⟩ := hwritten
    (SymbolicKey.argon2 "battery staple" ⟨1, [7, 7], 64, 3, 1⟩) ⟨1, [7, 7], 64, 3, 1⟩ 4 [1, 2, 3]
    ⟨by decide, by decide, by decide, by decide, by decide⟩
  refine ⟨encoded, hencrypt, ?_⟩
  refine (hagree "battery staple" [] encoded _ ?_ ?_).trans hopen
  · intro entry hentry
    cases hentry
  intro b hb
  rw [hparsed] at hb
  obtain rfl := Except.ok.inj hb
  rfl

end Backup

end OmniDrive
