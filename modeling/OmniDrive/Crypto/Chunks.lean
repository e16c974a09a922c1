import Mathlib.Data.List.Count
import OmniDrive.Crypto.Primitives
import OmniDrive.Library.ByteFields

/-!
# Chunk encryption

The chunk-level functions of `crypto.rs`: chunk identifiers, the V1 scheme under the vault key
and the V2 scheme under a DEK. HMAC, SHA-256, AES-GCM on byte strings and the Reed-Solomon code
come from other packages and are parameters.
-/

namespace OmniDrive

open ByteFields

/-- The primitives of other packages that the storage code calls. -/
structure ChunkPrimitives (P : Primitives) where
  /-- HMAC-SHA-256 under a key. -/
  hmacSha256 : P.Key → Bytes → FixedBytes 32
  /-- SHA-256 as lower-case hexadecimal text. -/
  sha256Hex : Bytes → String
  /-- AES-GCM with a detached tag: key, nonce, additional data and plaintext. -/
  gcmEncrypt : P.Key → FixedBytes 12 → Bytes → Bytes → Bytes × FixedBytes 16
  gcmDecrypt : P.Key → FixedBytes 12 → Bytes → Bytes → FixedBytes 16 → Option Bytes
  /-- The drawn nonces. -/
  randomNonce : ℕ → FixedBytes 12
  /-- The parity shard of two data shards of one length. -/
  rsEncode : Bytes → Bytes → Bytes
  /-- All three shards from the shards that are present. -/
  rsReconstruct : List (Option Bytes) → Option (List Bytes)

abbrev ChunkId := FixedBytes 32

abbrev ChunkNonce := FixedBytes 12

abbrev GcmTag := FixedBytes 16

structure EncryptedChunk where
  chunkId : ChunkId
  nonce : ChunkNonce
  ciphertext : Bytes
  gcmTag : GcmTag
  deriving DecidableEq

def chunkEncInfo : String := "chunk-enc-v1"

/-- The bytes of `b"nonce"`. -/
def chunkNoncePrefix : Bytes := [110, 111, 110, 99, 101]

variable {P : Primitives} (C : ChunkPrimitives P)

def chunkIdOf (vaultKey : P.Key) (plaintextChunk : Bytes) : ChunkId :=
  C.hmacSha256 vaultKey plaintextChunk

def chunkEncryptionKey (vaultKey : P.Key) : P.Key := P.hkdfExpand vaultKey chunkEncInfo

/-- The first twelve bytes of the digest. -/
def chunkNonce (vaultKey : P.Key) (chunkId : ChunkId) : ChunkNonce :=
  let digest := C.hmacSha256 vaultKey (chunkNoncePrefix ++ chunkId.bytes)
  ⟨digest.bytes.take 12, by simp⟩

def encryptChunk (vaultKey : P.Key) (plaintextChunk aad : Bytes) : EncryptedChunk :=
  let chunkId := chunkIdOf C vaultKey plaintextChunk
  let nonce := chunkNonce C vaultKey chunkId
  let (ciphertext, gcmTag) :=
    C.gcmEncrypt (chunkEncryptionKey vaultKey) nonce aad plaintextChunk
  { chunkId, nonce, ciphertext, gcmTag }

def decryptChunk (vaultKey : P.Key) (expectedChunkId : ChunkId) (aad ciphertext : Bytes)
    (gcmTag : GcmTag) : Except CryptoError Bytes :=
  let nonce := chunkNonce C vaultKey expectedChunkId
  match C.gcmDecrypt (chunkEncryptionKey vaultKey) nonce aad ciphertext gcmTag with
  | none => .error .aead
  | some plaintext =>
    let actual := chunkIdOf C vaultKey plaintext
    if actual = expectedChunkId then .ok plaintext
    else .error (.chunkIdMismatch expectedChunkId.bytes actual.bytes)

/-- Encrypt under a DEK with the nonce of the given draw. -/
def encryptChunkV2 (dek : P.Key) (nonceDraw : ℕ) (plaintextChunk aad : Bytes) : EncryptedChunk :=
  let chunkId := chunkIdOf C dek plaintextChunk
  let nonce := C.randomNonce nonceDraw
  let (ciphertext, gcmTag) := C.gcmEncrypt dek nonce aad plaintextChunk
  { chunkId, nonce, ciphertext, gcmTag }

def decryptChunkV2 (dek : P.Key) (nonce : ChunkNonce) (aad ciphertext : Bytes) (gcmTag : GcmTag) :
    Except CryptoError Bytes :=
  match C.gcmDecrypt dek nonce aad ciphertext gcmTag with
  | none => .error .aead
  | some plaintext => .ok plaintext

def decryptChunkV2Verified (dek : P.Key) (expectedChunkId : ChunkId) (nonce : ChunkNonce)
    (aad ciphertext : Bytes) (gcmTag : GcmTag) : Except CryptoError Bytes :=
  match decryptChunkV2 C dek nonce aad ciphertext gcmTag with
  | .error e => .error e
  | .ok plaintext =>
    let actual := chunkIdOf C dek plaintext
    if actual = expectedChunkId then .ok plaintext
    else .error (.chunkIdMismatch expectedChunkId.bytes actual.bytes)

/-! ## What the storage code relies on -/

/-- The laws of the ciphers and the codes: encryption keeps the length and is undone by
decryption, SHA-256 does not collide, and any two of three shards give back all three. -/
structure ChunkPrimitives.Ideal : Prop where
  gcmDecrypt_gcmEncrypt : ∀ k n aad m,
    C.gcmDecrypt k n aad (C.gcmEncrypt k n aad m).1 (C.gcmEncrypt k n aad m).2 = some m
  length_gcmEncrypt : ∀ k n aad m, (C.gcmEncrypt k n aad m).1.length = m.length
  sha256Hex_inj : Function.Injective C.sha256Hex
  length_rsEncode : ∀ {a b : Bytes}, a.length = b.length → (C.rsEncode a b).length = a.length
  rsReconstruct_of_two : ∀ {a b : Bytes} {s₀ s₁ s₂ : Option Bytes}, a.length = b.length → a ≠ [] →
    (s₀ = none ∨ s₀ = some a) → (s₁ = none ∨ s₁ = some b) →
    (s₂ = none ∨ s₂ = some (C.rsEncode a b)) →
    2 ≤ [s₀, s₁, s₂].countP Option.isSome → C.rsReconstruct [s₀, s₁, s₂] = some [a, b, C.rsEncode a b]

/-- The chunk identifiers of these plaintexts under the first `n` drawn keys do not collide. -/
def ChunkPrimitives.CollisionFree (n : ℕ) (plaintexts : Bytes → Prop) : Prop :=
  ∀ i j p q, i < n → j < n → plaintexts p → plaintexts q →
    chunkIdOf C (P.randomKey i) p = chunkIdOf C (P.randomKey j) q → i = j ∧ p = q

variable {C}

/-- A V2 chunk decrypts under its own DEK and nonce. -/
theorem decryptChunkV2Verified_encryptChunkV2 (ideal : C.Ideal) (dek : P.Key) (nonceDraw : ℕ)
    (plaintext aad : Bytes) :
    let chunk := encryptChunkV2 C dek nonceDraw plaintext aad
    decryptChunkV2Verified C dek chunk.chunkId chunk.nonce aad chunk.ciphertext chunk.gcmTag =
      .ok plaintext := by
  simp [encryptChunkV2, decryptChunkV2Verified, decryptChunkV2, ideal.gcmDecrypt_gcmEncrypt]

/-- A V1 chunk decrypts under its vault key. -/
theorem decryptChunk_encryptChunk (ideal : C.Ideal) (vaultKey : P.Key) (plaintext aad : Bytes) :
    let chunk := encryptChunk C vaultKey plaintext aad
    decryptChunk C vaultKey chunk.chunkId aad chunk.ciphertext chunk.gcmTag = .ok plaintext := by
  simp [encryptChunk, decryptChunk, ideal.gcmDecrypt_gcmEncrypt]

/-- A verified V2 decryption returns a plaintext with the expected identifier. -/
theorem chunkIdOf_of_decryptChunkV2Verified {dek : P.Key} {expected : ChunkId}
    {nonce : ChunkNonce} {aad ciphertext : Bytes} {gcmTag : GcmTag} {plaintext : Bytes}
    (h : decryptChunkV2Verified C dek expected nonce aad ciphertext gcmTag = .ok plaintext) :
    chunkIdOf C dek plaintext = expected := by
  unfold decryptChunkV2Verified at h
  split at h
  · cases h
  · simp only at h
    split at h
    · rename_i hsame
      cases h
      exact hsame
    · cases h

/-- A verified V2 decryption returns what the cipher returns. -/
theorem gcmDecrypt_of_decryptChunkV2Verified {dek : P.Key} {expected : ChunkId}
    {nonce : ChunkNonce} {aad ciphertext : Bytes} {gcmTag : GcmTag} {plaintext : Bytes}
    (h : decryptChunkV2Verified C dek expected nonce aad ciphertext gcmTag = .ok plaintext) :
    C.gcmDecrypt dek nonce aad ciphertext gcmTag = some plaintext := by
  unfold decryptChunkV2Verified decryptChunkV2 at h
  cases hopen : C.gcmDecrypt dek nonce aad ciphertext gcmTag with
  | none =>
    rw [hopen] at h
    cases h
  | some opened =>
    rw [hopen] at h
    simp only at h
    split at h
    · cases h
      rfl
    · cases h

/-- A V1 decryption returns a plaintext with the expected identifier. -/
theorem chunkIdOf_of_decryptChunk {vaultKey : P.Key} {expected : ChunkId}
    {aad ciphertext : Bytes} {gcmTag : GcmTag} {plaintext : Bytes}
    (h : decryptChunk C vaultKey expected aad ciphertext gcmTag = .ok plaintext) :
    chunkIdOf C vaultKey plaintext = expected := by
  unfold decryptChunk at h
  simp only at h
  split at h
  · cases h
  · split at h
    · rename_i hsame
      cases h
      exact hsame
    · cases h

end OmniDrive
