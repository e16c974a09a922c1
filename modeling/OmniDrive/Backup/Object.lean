import OmniDrive.Crypto.Chunks

/-!
# The encrypted metadata backup

The format of a metadata backup object, its encryption under a key derived from the master key,
and its decryption with the passphrase. The header carries the parameters of the passphrase hash,
so that the passphrase alone opens the object.
-/

namespace OmniDrive

open ByteFields

/-- The errors of the metadata backup; errors of other packages carry their text. -/
inductive DisasterRecoveryError where
  | io (message : String)
  | db (message : String)
  | aead
  | uploader (message : String)
  | noConfiguredProviders
  | noSuccessfulUploads
  | invalidBackupFormat (reason : String)
  | backupDecryptFailed
  | downloadFailed (errors : List String)
  deriving DecidableEq, Repr

/-- The text of an error. -/
def DisasterRecoveryError.display : DisasterRecoveryError → String
  | .io message => "i/o error: " ++ message
  | .db message => "sqlite error: " ++ message
  | .aead => "aes-gcm operation failed"
  | .uploader message => "uploader error: " ++ message
  | .noConfiguredProviders => "no metadata backup providers configured"
  | .noSuccessfulUploads => "metadata backup failed on every provider"
  | .invalidBackupFormat reason => "invalid metadata backup format: " ++ reason
  | .backupDecryptFailed => "failed to decrypt metadata backup"
  | .downloadFailed errors => "failed to download metadata backup: " ++ " | ".intercalate errors

namespace Backup

/-- `METADATA_BACKUP_MAGIC`: `OMNIDRIVE-META1`. -/
def metadataBackupMagic : Bytes :=
  [0x4f, 0x4d, 0x4e, 0x49, 0x44, 0x52, 0x49, 0x56, 0x45, 0x2d, 0x4d, 0x45, 0x54, 0x41, 0x31]

def metadataBackupVersion : UInt8 := 2

def metadataBackupInfo : String := "omnidrive-metadata-backup-v1"

def metadataBackupNonceLen : ℕ := 12

def metadataBackupTagLen : ℕ := 16

def metadataBackupHeaderFixedLen : ℕ := 15 + 1 + 2 + 4 + 4 + 4 + 4 + 12

variable {P : Primitives} (C : ChunkPrimitives P)

def deriveMetadataBackupKey (masterKey : P.Key) : P.Key := P.hkdfExpand masterKey metadataBackupInfo

/-! ## The format -/

/-- The fields of a backup object. -/
structure MetadataBackupParsed where
  kdf : RootKdfParams
  nonce : ChunkNonce
  ciphertext : Bytes
  tag : GcmTag

/-- Every number of the header is a `u32` there, and the length of the salt a `u16`. -/
structure FitsHeader (kdf : RootKdfParams) : Prop where
  parameterSetVersion : kdf.parameterSetVersion < 256 ^ 4
  memoryCostKib : kdf.memoryCostKib < 256 ^ 4
  timeCost : kdf.timeCost < 256 ^ 4
  lanes : kdf.lanes < 256 ^ 4
  salt : kdf.salt.length < 256 ^ 2

/-- The object of a parsed backup. -/
def MetadataBackupParsed.encode (b : MetadataBackupParsed) : Bytes :=
  metadataBackupMagic ++ ([metadataBackupVersion] ++ (toLe 2 b.kdf.salt.length ++
    (toLe 4 b.kdf.parameterSetVersion ++ (toLe 4 b.kdf.memoryCostKib ++ (toLe 4 b.kdf.timeCost ++
    (toLe 4 b.kdf.lanes ++ (b.nonce.bytes ++ (b.kdf.salt ++ (b.ciphertext ++ b.tag.bytes)))))))))

/-- `get(i..j)`: a range within bounds. -/
def getRange (i j : ℕ) (bytes : Bytes) : Option Bytes :=
  if j ≤ bytes.length then some (slice i j bytes) else none

def parseMetadataBackup (encoded : Bytes) : Except DisasterRecoveryError MetadataBackupParsed :=
  if encoded.length < metadataBackupHeaderFixedLen + metadataBackupTagLen then
    .error (.invalidBackupFormat "file too short")
  else if slice 0 15 encoded ≠ metadataBackupMagic then
    .error (.invalidBackupFormat "magic mismatch")
  else if slice 15 16 encoded ≠ [metadataBackupVersion] then
    .error (.invalidBackupFormat "unsupported backup version")
  else
    let saltLen := ofLe (slice 16 18 encoded)
    let parameterSetVersion := ofLe (slice 18 22 encoded)
    let memoryCostKib := ofLe (slice 22 26 encoded)
    let timeCost := ofLe (slice 26 30 encoded)
    let lanes := ofLe (slice 30 34 encoded)
    match (getRange 34 46 encoded).bind (FixedBytes.tryFrom 12) with
    | none => .error (.invalidBackupFormat "nonce")
    | some nonce => match getRange 46 (46 + saltLen) encoded with
      | none => .error (.invalidBackupFormat "salt")
      | some salt =>
        if encoded.length < 46 + saltLen + metadataBackupTagLen then
          .error (.invalidBackupFormat "ciphertext missing")
        else
          let ciphertextEnd := encoded.length - metadataBackupTagLen
          match FixedBytes.tryFrom 16 (slice ciphertextEnd encoded.length encoded) with
          | none => .error (.invalidBackupFormat "tag")
          | some tag => .ok
            { kdf := { parameterSetVersion, salt, memoryCostKib, timeCost, lanes }
              nonce
              ciphertext := slice (46 + saltLen) ciphertextEnd encoded
              tag }

/-! ## Encryption and decryption -/

/-- Encrypt a database file; the salt must fit its length field. -/
def encryptMetadataSnapshot (masterKey : P.Key) (kdf : RootKdfParams) (nonceDraw : ℕ)
    (input : Bytes) : Except DisasterRecoveryError Bytes :=
  let nonce := C.randomNonce nonceDraw
  let (ciphertext, tag) := C.gcmEncrypt (deriveMetadataBackupKey masterKey) nonce [] input
  if kdf.salt.length < 256 ^ 2 then
    .ok (MetadataBackupParsed.encode { kdf, nonce, ciphertext, tag })
  else .error (.invalidBackupFormat "salt too long")

/-- The keys derived so far in one restore. -/
abbrev MetadataBackupKeyCache (P : Primitives) := List (RootKdfParams × P.Key)

namespace MetadataBackupKeyCache

/-- The key for the parameters, derived once. -/
def backupKey (passphrase : String) (cache : MetadataBackupKeyCache P) (kdf : RootKdfParams) :
    Except DisasterRecoveryError P.Key × MetadataBackupKeyCache P :=
  match cache.find? fun entry => entry.1 = kdf with
  | some entry => (.ok entry.2, cache)
  | none => match deriveRootKeys P passphrase kdf with
    | none => (.error .backupDecryptFailed, cache)
    | some rootKeys =>
      let key := deriveMetadataBackupKey rootKeys.masterKey
      (.ok key, cache ++ [(kdf, key)])

/-- Every cached key is the one that the passphrase gives. -/
def Sound (passphrase : String) (cache : MetadataBackupKeyCache P) : Prop :=
  ∀ entry ∈ cache, ∃ rootKeys, deriveRootKeys P passphrase entry.1 = some rootKeys ∧
    entry.2 = deriveMetadataBackupKey rootKeys.masterKey

end MetadataBackupKeyCache

/-- Open the ciphertext of a parsed backup. -/
def MetadataBackupParsed.open (b : MetadataBackupParsed) (key : P.Key) :
    Except DisasterRecoveryError Bytes :=
  match C.gcmDecrypt key b.nonce [] b.ciphertext b.tag with
  | some plaintext => .ok plaintext
  | none => .error .backupDecryptFailed

def decryptMetadataBackup (passphrase : String) (cache : MetadataBackupKeyCache P)
    (encoded : Bytes) : Except DisasterRecoveryError Bytes × MetadataBackupKeyCache P :=
  match parseMetadataBackup encoded with
  | .error e => (.error e, cache)
  | .ok parsed => match cache.backupKey passphrase parsed.kdf with
    | (.error e, cache) => (.error e, cache)
    | (.ok key, cache) => (parsed.open C key, cache)

/-- What the passphrase makes of an object. -/
def openBackup (passphrase : String) (encoded : Bytes) : Except DisasterRecoveryError Bytes :=
  (decryptMetadataBackup C passphrase [] encoded).1

/-! ## Round trip -/

/-- The fields of an object at their positions. -/
structure BackupFields (b : MetadataBackupParsed) (encoded : Bytes) : Prop where
  length : encoded.length = 46 + b.kdf.salt.length + b.ciphertext.length + 16
  magic : slice 0 15 encoded = metadataBackupMagic
  version : slice 15 16 encoded = [metadataBackupVersion]
  saltLen : slice 16 18 encoded = toLe 2 b.kdf.salt.length
  parameterSetVersion : slice 18 22 encoded = toLe 4 b.kdf.parameterSetVersion
  memoryCostKib : slice 22 26 encoded = toLe 4 b.kdf.memoryCostKib
  timeCost : slice 26 30 encoded = toLe 4 b.kdf.timeCost
  lanes : slice 30 34 encoded = toLe 4 b.kdf.lanes
  nonce : slice 34 46 encoded = b.nonce.bytes
  salt : slice 46 (46 + b.kdf.salt.length) encoded = b.kdf.salt
  ciphertext : slice (46 + b.kdf.salt.length)
    (46 + b.kdf.salt.length + b.ciphertext.length) encoded = b.ciphertext
  tag : slice (46 + b.kdf.salt.length + b.ciphertext.length)
    (46 + b.kdf.salt.length + b.ciphertext.length + 16) encoded = b.tag.bytes

theorem backupFields_encode (b : MetadataBackupParsed) : BackupFields b b.encode := by
  have hmagic : metadataBackupMagic.length = 15 := rfl
  have hversion : [metadataBackupVersion].length = 1 := rfl
  have hle := length_toLe
  have hnonce := b.nonce.length_bytes
  have htag := b.tag.length_bytes
  -- everything from the length of the salt on
  have h16 : ∀ i j, 16 ≤ i → slice i j b.encode = slice (i - 16) (j - 16)
      (toLe 2 b.kdf.salt.length ++ (toLe 4 b.kdf.parameterSetVersion ++
        (toLe 4 b.kdf.memoryCostKib ++ (toLe 4 b.kdf.timeCost ++ (toLe 4 b.kdf.lanes ++
          (b.nonce.bytes ++ (b.kdf.salt ++ (b.ciphertext ++ b.tag.bytes)))))))) := by
    intro i j hi
    rw [MetadataBackupParsed.encode, slice_skip hmagic (by omega), slice_skip hversion (by omega),
      Nat.sub_sub, Nat.sub_sub]
  -- everything from the nonce on
  have h34 : ∀ i j, 34 ≤ i → slice i j b.encode = slice (i - 34) (j - 34)
      (b.nonce.bytes ++ (b.kdf.salt ++ (b.ciphertext ++ b.tag.bytes))) := by
    intro i j hi
    rw [h16 i j (by omega), slice_skip (hle _ _) (by omega), slice_skip (hle _ _) (by omega),
      slice_skip (hle _ _) (by omega), slice_skip (hle _ _) (by omega),
      slice_skip (hle _ _) (by omega)]
    simp only [Nat.sub_sub]
  constructor
  · rw [MetadataBackupParsed.encode]
    simp only [List.length_append, hmagic, hversion, hle, hnonce, htag]
    omega
  · exact slice_head hmagic
  · rw [MetadataBackupParsed.encode, slice_skip hmagic (by decide)]
    exact slice_head hversion
  · rw [h16 16 18 (Nat.le_refl _)]
    exact slice_head (hle _ _)
  · rw [h16 18 22 (by decide), slice_skip (hle _ _) (by decide)]
    exact slice_head (hle _ _)
  · rw [h16 22 26 (by decide), slice_skip (hle _ _) (by decide), slice_skip (hle _ _) (by decide)]
    exact slice_head (hle _ _)
  · rw [h16 26 30 (by decide), slice_skip (hle _ _) (by decide), slice_skip (hle _ _) (by decide),
      slice_skip (hle _ _) (by decide)]
    exact slice_head (hle _ _)
  · rw [h16 30 34 (by decide), slice_skip (hle _ _) (by decide), slice_skip (hle _ _) (by decide),
      slice_skip (hle _ _) (by decide), slice_skip (hle _ _) (by decide)]
    exact slice_head (hle _ _)
  · rw [h34 34 46 (Nat.le_refl _)]
    exact slice_head hnonce
  · rw [h34 46 _ (by decide)]
    exact slice_field hnonce (by omega)
  · rw [h34 _ _ (by omega), slice_skip hnonce (by omega)]
    exact slice_field (by omega) (by omega)
  · rw [h34 _ _ (by omega), slice_skip hnonce (by omega), slice_skip rfl (by omega)]
    exact slice_last (by omega) (by omega)

/-- A backup object is parsed to its fields. -/
theorem parseMetadataBackup_encode {b : MetadataBackupParsed} (h : FitsHeader b.kdf) :
    parseMetadataBackup b.encode = .ok b := by
  have f := backupFields_encode b
  have hsalt : ofLe (toLe 2 b.kdf.salt.length) = b.kdf.salt.length := ofLe_toLe_of_lt h.salt
  have hlen := f.length
  have hend : b.encode.length - 16 = 46 + b.kdf.salt.length + b.ciphertext.length := by omega
  have hshort : ¬ b.encode.length < metadataBackupHeaderFixedLen + metadataBackupTagLen := by
    show ¬ b.encode.length < 46 + 16
    omega
  have hnonce : getRange 34 46 b.encode = some b.nonce.bytes := by
    rw [getRange, if_pos (by omega), f.nonce]
  have hsaltRange : getRange 46 (46 + b.kdf.salt.length) b.encode = some b.kdf.salt := by
    rw [getRange, if_pos (by omega), f.salt]
  have hciphertext : ¬ b.encode.length < 46 + b.kdf.salt.length + metadataBackupTagLen := by
    show ¬ b.encode.length < 46 + b.kdf.salt.length + 16
    omega
  have htag : slice (b.encode.length - 16) b.encode.length b.encode = b.tag.bytes := by
    rw [hend, hlen]
    exact f.tag
  have hplain : slice (46 + b.kdf.salt.length) (b.encode.length - 16) b.encode = b.ciphertext := by
    rw [hend, f.ciphertext]
  rw [parseMetadataBackup, if_neg hshort, f.magic, if_neg (not_not_intro rfl), f.version,
    if_neg (not_not_intro rfl)]
  simp only [f.saltLen, hsalt, hnonce, Option.bind_some, FixedBytes.tryFrom_bytes, hsaltRange,
    metadataBackupTagLen, htag, hplain, f.parameterSetVersion, f.memoryCostKib, f.timeCost,
    f.lanes, ofLe_toLe_of_lt h.parameterSetVersion, ofLe_toLe_of_lt h.memoryCostKib,
    ofLe_toLe_of_lt h.timeCost, ofLe_toLe_of_lt h.lanes]
  exact if_neg hciphertext

/-! ## The cache -/

/-- A sound cache gives the keys of the passphrase and stays sound. -/
theorem MetadataBackupKeyCache.backupKey_sound {passphrase : String}
    {cache : MetadataBackupKeyCache P} (h : cache.Sound passphrase) (kdf : RootKdfParams) :
    (cache.backupKey passphrase kdf).1 =
        (MetadataBackupKeyCache.backupKey (P := P) passphrase [] kdf).1 ∧
      (cache.backupKey passphrase kdf).2.Sound passphrase := by
  have hempty : (MetadataBackupKeyCache.backupKey (P := P) passphrase [] kdf).1 =
      match deriveRootKeys P passphrase kdf with
      | none => .error .backupDecryptFailed
      | some rootKeys => .ok (deriveMetadataBackupKey rootKeys.masterKey) := by
    rw [MetadataBackupKeyCache.backupKey, List.find?_nil]
    cases deriveRootKeys P passphrase kdf <;> rfl
  rw [hempty, MetadataBackupKeyCache.backupKey]
  cases hfound : cache.find? fun entry => entry.1 = kdf with
  | some entry =>
    obtain ⟨rootKeys, hroot, hkey⟩ := h entry (List.mem_of_find?_eq_some hfound)
    have hkdf : entry.1 = kdf := by simpa using List.find?_some hfound
    rw [hkdf] at hroot
    rw [hroot]
    exact ⟨congrArg Except.ok hkey, h⟩
  | none =>
    cases hroot : deriveRootKeys P passphrase kdf with
    | none => exact ⟨rfl, h⟩
    | some rootKeys =>
      refine ⟨rfl, ?_⟩
      intro entry hentry
      rcases List.mem_append.mp hentry with hentry | hentry
      · exact h entry hentry
      · rw [List.mem_singleton.mp hentry]
        exact ⟨rootKeys, hroot, rfl⟩

/-- With a sound cache, what an object decrypts to does not depend on the cache. -/
theorem decryptMetadataBackup_sound {passphrase : String} {cache : MetadataBackupKeyCache P}
    (h : cache.Sound passphrase) (encoded : Bytes) :
    (decryptMetadataBackup C passphrase cache encoded).1 = openBackup C passphrase encoded ∧
      (decryptMetadataBackup C passphrase cache encoded).2.Sound passphrase := by
  rw [openBackup, decryptMetadataBackup, decryptMetadataBackup]
  cases hparsed : parseMetadataBackup encoded with
  | error e => exact ⟨rfl, h⟩
  | ok parsed =>
    obtain ⟨hkey, hsound⟩ := MetadataBackupKeyCache.backupKey_sound h parsed.kdf
    dsimp only
    split
    · rename_i e cache' hleft
      rw [hleft] at hkey hsound
      refine ⟨?_, hsound⟩
      split
      · rename_i e' cache'' hright
        rw [hright] at hkey
        cases hkey
        rfl
      · rename_i key cache'' hright
        rw [hright] at hkey
        cases hkey
    · rename_i key cache' hleft
      rw [hleft] at hkey hsound
      refine ⟨?_, hsound⟩
      split
      · rename_i e' cache'' hright
        rw [hright] at hkey
        cases hkey
      · rename_i key' cache'' hright
        rw [hright] at hkey
        cases hkey
        rfl

/-- The owner of the passphrase opens what was encrypted under the master key of the parameters
in the header. -/
theorem openBackup_encrypt (ideal : C.Ideal) {passphrase : String} {kdf : RootKdfParams}
    {rootKeys : RootKeys P} (hroot : deriveRootKeys P passphrase kdf = some rootKeys)
    (hfits : FitsHeader kdf) (nonceDraw : ℕ) (input : Bytes) :
    ∃ encoded, encryptMetadataSnapshot C rootKeys.masterKey kdf nonceDraw input = .ok encoded ∧
      openBackup C passphrase encoded = .ok input := by
  refine ⟨_, if_pos hfits.salt, ?_⟩
  rw [openBackup, decryptMetadataBackup, parseMetadataBackup_encode hfits]
  simp [MetadataBackupKeyCache.backupKey, hroot, MetadataBackupParsed.open,
    ideal.gcmDecrypt_gcmEncrypt]

end Backup

end OmniDrive
