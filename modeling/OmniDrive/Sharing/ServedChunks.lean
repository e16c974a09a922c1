import OmniDrive.Sharing.Database

/-!
# The chunks a link serves

A link serves a chunk as it is stored: nonce, ciphertext and tag of its record, from the pack that
the downloader finds or fetches.
-/

namespace OmniDrive

open StatementProgram ByteFields

variable {P : Primitives}

/-- What a recipient gets of a chunk. -/
structure EncryptedChunkBytes where
  nonce : ChunkNonce
  ciphertext : Bytes
  gcmTag : GcmTag
  deriving DecidableEq

def EncryptedChunkBytes.toBytes (c : EncryptedChunkBytes) : Bytes :=
  c.nonce.bytes ++ (c.ciphertext ++ c.gcmTag.bytes)

namespace Downloader

/-- Take nonce, ciphertext and tag out of a record. -/
def encryptedFields (record : Bytes) : Except DownloaderError EncryptedChunkBytes := do
  if slice 0 4 record ≠ chunkRecordMagic then .error (.invalidPackRecord "chunk magic")
  else
    let cipherLen := ofBe (slice 48 56 record)
    let nonce ← fixedField 12 (slice 56 68 record) "nonce"
    let ciphertextEnd := ChunkRecordPrefix.size + cipherLen
    let tagEnd := ciphertextEnd + ChunkRecordPrefix.gcmTagSize
    -- a sum beyond the address space is beyond the record as well: nothing is served
    if tagEnd > record.length then .error (.invalidPackRecord "record too short")
    else
      let gcmTag ← fixedField 16 (slice ciphertextEnd tagEnd record) "gcm tag"
      pure { nonce, ciphertext := slice ChunkRecordPrefix.size ciphertextEnd record, gcmTag }

def getEncryptedChunkBytes (C : ChunkPrimitives P) (net : Network) (chunk : FileChunkLocation) :
    FileProg P DownloaderError EncryptedChunkBytes := do
  let source ← downloadPack C net chunk.packId
  let packBytes ← readSpoolFile source.localPath
  let record ← Prog.ofExcept (cutRecord packBytes chunk)
  Prog.ofExcept (encryptedFields record)

/-- Fetching a chunk leaves the file tables as they are. -/
theorem fixes_getEncryptedChunkBytes (C : ChunkPrimitives P) (net : Network)
    (chunk : FileChunkLocation) : (getEncryptedChunkBytes C net chunk).Fixes (·.db) := by
  apply Prog.Fixes.bind (fixes_downloadPack C net (fun _ _ _ => rfl) _)
  intro source
  apply Prog.Fixes.bind
  · apply Prog.Fixes.bind (Prog.Fixes.query _)
    intro bytes
    exact Prog.Fixes.ofOption _ _
  · intro packBytes
    apply Prog.Fixes.bind (Prog.Fixes.ofExcept _)
    intro record
    exact Prog.Fixes.ofExcept _

end Downloader

end OmniDrive
