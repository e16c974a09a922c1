import OmniDrive.Access.Acl
import OmniDrive.Sharing.ServedChunks
import OmniDrive.Storage.ConflictCopy

/-!
# The handlers of share links

The handlers of `api/sharing.rs` that create a link and serve its metadata and its chunks, with
the sealing of `sharing.rs`. What a handler draws at random is
an argument where no key depends on it, and what it logs is left out. A statement that the
database refuses is a fault of the environment.
-/

namespace OmniDrive

open StatementProgram Tables

variable {P : Primitives} {α ε : Type}

/-! ## Sealed pack keys -/

namespace Sharing

def shareDekInfo : String := "omnidrive-share-dek-v1"

def shareWrappingKey (shareKey : P.Key) : P.Key := deriveSubkey shareKey shareDekInfo

/-- Seal the DEK of a pack for a link, with the given nonce. -/
def sealDekForShare (shareKey : P.Key) (packId : String) (nonce : ℕ) (dek : P.Key) : P.Sealed :=
  P.gcmSeal (shareWrappingKey shareKey) nonce packId (.exact dek)

def openDekForShare (shareKey : P.Key) (packId : String) (blob : P.Sealed) :
    Except CryptoError P.Key := do
  let plaintext ← decryptSecret (shareWrappingKey shareKey) blob packId
  match plaintext.tryInto with
  | some dek => .ok dek
  | none => .error .aead

end Sharing

/-! ## Handlers -/

/-- A program of the handlers of share links. -/
abbrev ShareApiProg (P : Primitives) (α : Type) := Prog (ShareWorld P) ApiError α

/-- A statement that the database refuses when the environment makes it. -/
def refusable (fault : Bool) (p : ShareProg P α) : ShareProg P α :=
  if fault then .fail .unavailable else p

/-- A statement of a handler; its error becomes an internal error. -/
def shareQuery (p : ShareProg P α) : ShareApiProg P α := p.mapError .database

namespace Api

structure CreateShareRequest where
  expiresInHours : Option ℕ
  maxDownloads : Option ℤ
  /-- The hash of the password, if one is given that is not empty. -/
  passwordHash : Option String

structure CreateShareResponse (P : Primitives) where
  shareId : String
  shareKey : P.Key
  expiresAt : Option ℤ
  maxDownloads : Option ℤ
  passwordProtected : Bool

/-- Seal the DEK of the pack of one chunk after the other. -/
def sealPackKeys (shareId : String) (shareKey : P.Key) :
    List FileChunkLocation → ShareApiProg P Unit
  | [] => pure ()
  | chunk :: rest => do
    let dek ← (onFiles (VaultKeyStore.dekForPack chunk.packId)).mapError fun _ =>
      .internal "dek_unavailable"
    let nonce ← onFiles (onVault (fun _ => .internal "share_key_seal_failed") (draw id))
    shareQuery (Db.insertSharePackKey shareId chunk.packId
      (Sharing.sealDekForShare shareKey chunk.packId nonce dek))
    sealPackKeys shareId shareKey rest

def createShareLink (shareId : String) (inodeId : ℤ) (request : CreateShareRequest) :
    ShareApiProg P (CreateShareResponse P) := do
  let _ ← onFiles (onVault (fun _ => ApiError.forbidden "vault is locked")
    VaultKeyStore.requireEnvelopeKey)
  let inode ← onFiles ((Db.getInodeById inodeId).mapError .database)
  let inode ← Prog.ofOption (.notFound "inode" (toString inodeId)) inode
  let revision ← onFiles (Db.getCurrentFileRevision inodeId)
  let revision ← Prog.ofOption (.notFound "current_revision" (toString inodeId)) revision
  let shareKey ← onFiles (onVault (fun _ => ApiError.internal "") generateRandomKey)
  let now ← Prog.query ShareWorld.now
  -- the sum wraps around like the machine integer
  let expiresAt := request.expiresInHours.map fun hours =>
    (now + (hours : ℤ) * 3600000).bmod (2 ^ 64)
  shareQuery (Db.createSharedLink shareId inodeId revision.revisionId inode.name revision.size
    expiresAt request.maxDownloads request.passwordHash)
  let chunks ← shareQuery (Db.getChunkLocationsForRevision revision.revisionId)
  sealPackKeys shareId shareKey chunks
  pure
    { shareId
      shareKey
      expiresAt
      maxDownloads := request.maxDownloads
      passwordProtected := request.passwordHash.isSome }

/-- Revoke a link and drop its sealed keys. -/
def revokeShare (shareId : String) : ShareApiProg P Unit := do
  if ← shareQuery (Db.revokeSharedLink shareId) then
    shareQuery (Db.deleteSharePackKeys shareId)
  else .fail (.notFound "share" shareId)

/-- A link without a password is open; one with a password asks for a token of its own. -/
def checkSharePasswordAccess (fault : Bool) (link : SharedLinkRecord) (token : Option String) :
    ShareApiProg P Unit :=
  if link.passwordHash.isNone then pure ()
  else match token.filter (· ≠ "") with
    | some t => do
      if ← shareQuery (refusable fault (Db.validateSharePasswordToken t link.shareId)) then
        pure ()
      else .fail (.unauthorized "invalid or expired share token")
    | none => .fail (.unauthorized "password required")

/-- The reason that is given for an invalid link. -/
def invalidReason (link : SharedLinkRecord) : String :=
  if link.revoked ≠ 0 then "revoked"
  else if link.maxDownloads.any (· ≤ link.downloadCount) then "download_limit_reached"
  else "expired"

structure ShareChunkMeta (P : Primitives) where
  index : ℤ
  fileOffset : ℤ
  plainSize : ℤ
  encryptedSize : ℤ
  packId : String
  sealedDek : P.Sealed

structure ShareMetaResponse (P : Primitives) where
  fileName : String
  fileSize : ℤ
  chunkCount : ℕ
  chunks : List (ShareChunkMeta P)

/-- Look up the sealed key of one chunk after the other. -/
def chunkMetas (shareId : String) :
    List FileChunkLocation → ShareApiProg P (List (ShareChunkMeta P))
  | [] => pure []
  | c :: rest => do
    let sealedDek ← shareQuery (Db.getSharePackKey shareId c.packId)
    let sealedDek ← Prog.ofOption
      (.gone "share predates per-pack keys and must be recreated") sealedDek
    let tail ← chunkMetas shareId rest
    pure
      ({ index := c.chunkIndex
         fileOffset := c.fileOffset
         plainSize := c.size
         encryptedSize := c.encryptedSize
         packId := c.packId
         sealedDek } :: tail)

def getShareMeta (shareId : String) (token : Option String) :
    ShareApiProg P (ShareMetaResponse P) := do
  let link ← shareQuery (Db.getSharedLink shareId)
  let link ← Prog.ofOption (.notFound "share" shareId) link
  let now ← Prog.query ShareWorld.now
  if !Db.isSharedLinkValid now link then
    .fail (.gone ("share is invalid: " ++ invalidReason link))
  else
    checkSharePasswordAccess false link token
    let chunks ← shareQuery (Db.getChunkLocationsForRevision link.revisionId)
    let metas ← chunkMetas shareId chunks
    pure
      { fileName := link.fileName
        fileSize := link.fileSize
        chunkCount := metas.length
        chunks := metas }

/-- The statements of a chunk request that the environment lets the database refuse. -/
structure ChunkFaults where
  lookup : Bool := false
  password : Bool := false
  locations : Bool := false
  increment : Bool := false

/-- A request for a chunk, and the network of the downloader that serves it, if there is one. -/
structure ChunkRequest where
  shareId : String
  chunkIndex : ℤ
  token : Option String := none
  downloader : Option Network
  faults : ChunkFaults := {}

/-- The chunk that a request asks for. -/
def findChunk (chunkIndex : ℤ) (chunks : List FileChunkLocation) :
    Except ApiError FileChunkLocation :=
  match chunks.find? (·.chunkIndex = chunkIndex) with
  | some chunk => .ok chunk
  | none => .error (.notFound "chunk" (toString chunkIndex))

/-- The request for the last chunk counts as a download; a refused count is ignored. -/
def countIfLast (req : ChunkRequest) (chunkCount : ℕ) : ShareApiProg P Unit :=
  if req.chunkIndex = (chunkCount : ℤ) - 1 then do
    let _ ← ((refusable req.faults.increment
      (Db.incrementSharedLinkDownloadCount req.shareId)).attempt :
        ShareApiProg P (Except DbError Unit))
    pure ()
  else pure ()

def getShareChunk (C : ChunkPrimitives P) (req : ChunkRequest) : ShareApiProg P Bytes := do
  let link ← shareQuery (refusable req.faults.lookup (Db.getSharedLink req.shareId))
  let link ← Prog.ofOption (.notFound "share" req.shareId) link
  let now ← Prog.query ShareWorld.now
  if !Db.isSharedLinkValid now link then .fail (.gone "share is invalid")
  else
    checkSharePasswordAccess req.faults.password link req.token
    let net ← Prog.ofOption (.serviceUnavailable "downloader unavailable") req.downloader
    let chunks ← shareQuery
      (refusable req.faults.locations (Db.getChunkLocationsForRevision link.revisionId))
    let chunk ← Prog.ofExcept (findChunk req.chunkIndex chunks)
    let encrypted ← (onFiles (Downloader.getEncryptedChunkBytes C net chunk)).mapError fun _ =>
      .internal "chunk fetch failed"
    countIfLast req chunks.length
    pure encrypted.toBytes

end Api

end OmniDrive
