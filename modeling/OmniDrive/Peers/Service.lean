import OmniDrive.Access.Database
import OmniDrive.Backup.Restore
import OmniDrive.Storage.Downloader

/-!
# The peer service

The announcements, the handshake and the chunk requests of `peer.rs`, with the statements on
`trusted_peers` and the read of a plaintext chunk. What a host answers to a handshake, what the
providers deliver and what the chunk cache holds is left to the environment.
-/

namespace OmniDrive

open StatementProgram Tables

/-- A row of `trusted_peers`. -/
structure TrustedPeerRecord where
  peerId : String
  deviceName : String
  vaultId : String
  peerApiBase : String
  trusted : ℤ
  lastSeenAt : ℤ
  lastHandshakeAt : Option ℤ := none
  lastError : Option String := none
  deriving DecidableEq, Repr

/-- The storage code with the vault, the tables of the access control, and the peers. -/
structure PeerWorld (P : Primitives) where
  files : FileWorld P
  sessions : List UserSession := []
  inviteCodes : List InviteCodeRecord := []
  trustedPeers : List TrustedPeerRecord := []

variable {P : Primitives} {α ε : Type}

namespace PeerWorld

/-- The clock in milliseconds. -/
def now (w : PeerWorld P) : ℤ := w.files.now

/-- The peer with an identifier. -/
def peer? (w : PeerWorld P) (peerId : String) : Option TrustedPeerRecord :=
  w.trustedPeers.find? (·.peerId = peerId)

/-- The part of the access control. -/
def access (w : PeerWorld P) : AccessWorld P :=
  { vault := w.files.vault, sessions := w.sessions, inviteCodes := w.inviteCodes }

def withAccess (access : AccessWorld P) (w : PeerWorld P) : PeerWorld P :=
  { w with
    files := { w.files with vault := access.vault }
    sessions := access.sessions
    inviteCodes := access.inviteCodes }

end PeerWorld

inductive PeerError where
  | http
  | json
  | db (err : DbError)
  deriving DecidableEq, Repr

/-- A program of the peer service. -/
abbrev PeerProg (P : Primitives) (α : Type) := Prog (PeerWorld P) PeerError α

/-! ## `device_identity.rs` -/

namespace Db

/-- Every announcement is written with trust, over a row that exists as well. -/
def peerSeen (peerId deviceName vaultId peerApiBase : String) (w : PeerWorld P) : PeerWorld P :=
  { w with
    trustedPeers := upsert TrustedPeerRecord.peerId
      (fun p => { p with deviceName, vaultId, peerApiBase, trusted := 1, lastSeenAt := w.now })
      { peerId, deviceName, vaultId, peerApiBase, trusted := 1, lastSeenAt := w.now }
      w.trustedPeers }

def notePeerSeen (peerId deviceName vaultId peerApiBase : String) : PeerProg P Unit :=
  Prog.exec (peerSeen peerId deviceName vaultId peerApiBase)

def trustedPeer (peerId deviceName vaultId peerApiBase : String) (lastError : Option String)
    (w : PeerWorld P) : PeerWorld P :=
  { w with
    trustedPeers := upsert TrustedPeerRecord.peerId
      (fun p =>
        { p with
          deviceName, vaultId, peerApiBase, trusted := 1, lastSeenAt := w.now
          lastHandshakeAt := some w.now, lastError })
      { peerId, deviceName, vaultId, peerApiBase, trusted := 1, lastSeenAt := w.now
        lastHandshakeAt := some w.now, lastError }
      w.trustedPeers }

def upsertTrustedPeer (peerId deviceName vaultId peerApiBase : String)
    (lastError : Option String) : PeerProg P Unit :=
  Prog.exec (trustedPeer peerId deviceName vaultId peerApiBase lastError)

def peerError (peerId : String) (lastError : Option String) (w : PeerWorld P) : PeerWorld P :=
  { w with
    trustedPeers := updateWhere (·.peerId = peerId)
      (fun p => { p with lastError, lastSeenAt := w.now }) w.trustedPeers }

def updatePeerError (peerId : String) (lastError : Option String) : PeerProg P Unit :=
  Prog.exec (peerError peerId lastError)

def getTrustedPeerById (peerId : String) : PeerProg P (Option TrustedPeerRecord) :=
  Prog.query (·.peer? peerId)

end Db

/-! ## Discovery -/

/-- The service of this device in its vault. -/
structure PeerService where
  localDeviceId : String
  localDeviceName : String
  localVaultId : String

structure PeerAnnouncement where
  deviceId : String
  deviceName : String
  vaultId : String
  peerPort : ℕ

structure PeerHelloResponse where
  deviceId : String
  deviceName : String
  vaultId : String

/-- What comes back from the address of an announcement. -/
inductive HelloReply where
  | unreachable
  | rejected
  | garbled
  | hello (response : PeerHelloResponse)

namespace PeerService

variable (svc : PeerService)

/-- How this device answers a handshake. -/
def getPeerHello (vaultId : String) : HelloReply :=
  if vaultId ≠ svc.localVaultId then .rejected
  else .hello
    { deviceId := svc.localDeviceId
      deviceName := svc.localDeviceName
      vaultId := svc.localVaultId }

/-- An announcement of another device that names this vault. -/
def accepts (announcement : PeerAnnouncement) : Bool :=
  announcement.deviceId ≠ svc.localDeviceId && announcement.vaultId = svc.localVaultId

def peerApiBase (senderIp : String) (announcement : PeerAnnouncement) : String :=
  "http://" ++ senderIp ++ ":" ++ toString announcement.peerPort

/-- The answer of the expected device of this vault. -/
def confirms (expectedPeerId : String) : HelloReply → Bool
  | .hello hello => hello.deviceId = expectedPeerId && hello.vaultId = svc.localVaultId
  | _ => false

def handshakePeer (expectedPeerId peerApiBase : String) (reply : HelloReply) : PeerProg P Unit :=
  match reply with
  | .unreachable => .fail .http
  | .rejected => Db.updatePeerError expectedPeerId (some "hello handshake rejected")
  | .garbled => .fail .json
  | .hello hello =>
    if hello.deviceId ≠ expectedPeerId || hello.vaultId ≠ svc.localVaultId then
      Db.updatePeerError expectedPeerId (some "hello identity mismatch")
    else
      Db.upsertTrustedPeer hello.deviceId hello.deviceName hello.vaultId peerApiBase none

def noteAnnouncement (announcement : PeerAnnouncement) (senderIp : String) : PeerProg P Unit :=
  Db.notePeerSeen announcement.deviceId announcement.deviceName announcement.vaultId
    (peerApiBase senderIp announcement)

/-- One datagram of the discovery loop; a failed handshake is logged. -/
def receiveAnnouncement (announcement : PeerAnnouncement) (senderIp : String)
    (reply : HelloReply) : PeerProg P Unit :=
  if svc.accepts announcement then do
    noteAnnouncement announcement senderIp
    let _ ← ((svc.handshakePeer announcement.deviceId (peerApiBase senderIp announcement)
      reply).attempt : PeerProg P (Except PeerError Unit))
    pure ()
  else pure ()

end PeerService

/-! ## Chunk requests -/

namespace Downloader

/-- The plaintext of a chunk, from the chunk cache or from its pack. -/
def readPlaintextChunkById (C : ChunkPrimitives P) (net : Network)
    (cached : ℤ → ℤ → Option Bytes) (chunkId : Bytes) :
    FileProg P DownloaderError (Option Bytes) := do
  match ← Db.getChunkLookupByChunkId chunkId with
  | none => pure none
  | some chunk =>
    match cached chunk.revisionId chunk.chunkIndex with
    | some bytes => pure (some bytes)
    | none =>
      let vaultKey ← onVault .vault VaultKeyStore.vaultKeyForV1Read
      let dek ← packDek chunk.packId
      let fileChunk : FileChunkLocation :=
        { chunkId := chunk.chunkId
          chunkIndex := chunk.chunkIndex
          fileOffset := chunk.fileOffset
          size := chunk.size
          packId := chunk.packId
          packOffset := chunk.packOffset
          encryptedSize := chunk.encryptedSize }
      let source ← downloadPack C net fileChunk.packId
      let packBytes ← readSpoolFile source.localPath
      let bytes ← Prog.ofExcept (decryptChunkRecord C packBytes fileChunk vaultKey dek)
      pure (some bytes)

end Downloader

/-- The headers of a chunk request, as far as they are text, and its path. -/
structure PeerChunkRequest where
  callerDevice : Option String
  vaultId : Option String
  chunkHex : String

inductive PeerAnswer where
  | ok (bytes : Bytes)
  | unauthorized
  | forbidden
  | badRequest
  | notFound
  | internalServerError
  deriving DecidableEq, Repr

/-- The value of a header without the space around it, if something is left. -/
def headerValue (header : Option String) : Option String :=
  (header.map Backup.trim).filter (· ≠ "")

def hexDigit (c : Char) : Option ℕ :=
  if '0' ≤ c && c ≤ '9' then some (c.toNat - '0'.toNat)
  else if 'a' ≤ c && c ≤ 'f' then some (c.toNat - 'a'.toNat + 10)
  else if 'A' ≤ c && c ≤ 'F' then some (c.toNat - 'A'.toNat + 10)
  else none

/-- The bytes of pairs of digits. -/
def decodeHexDigits : List Char → Option Bytes
  | [] => some []
  | [_] => none
  | high :: low :: rest => do
    let high ← hexDigit high
    let low ← hexDigit low
    let bytes ← decodeHexDigits rest
    some (UInt8.ofNat (high * 16 + low) :: bytes)

def decodeHex (input : String) : Option Bytes :=
  if input.utf8ByteSize % 2 = 0 then decodeHexDigits input.toList else none

/-- Run a program of the storage code. -/
def onPeerFiles (p : FileProg P ε α) : Prog (PeerWorld P) ε α :=
  p.zoom (·.files) fun files w => { w with files }

/-- Run a program of the access tables. -/
def onPeerAccess (p : Prog (AccessWorld P) ε α) : Prog (PeerWorld P) ε α :=
  p.zoom (·.access) PeerWorld.withAccess

/-- The chunk is read for every caller whose peer row has trust. -/
def servePeerChunk (C : ChunkPrimitives P) (net : Network) (cached : ℤ → ℤ → Option Bytes)
    (chunkHex : String) : PeerProg P PeerAnswer :=
  match decodeHex chunkHex with
  | none => pure .badRequest
  | some chunkId => do
    match ← (onPeerFiles (Downloader.readPlaintextChunkById C net cached chunkId)).attempt with
    | .ok (some bytes) => pure (.ok bytes)
    | .ok none => pure .notFound
    | .error (_ : DownloaderError) => pure .internalServerError

def PeerService.getPeerChunk (svc : PeerService) (C : ChunkPrimitives P) (net : Network)
    (cached : ℤ → ℤ → Option Bytes) (req : PeerChunkRequest) : PeerProg P PeerAnswer :=
  match headerValue req.callerDevice with
  | none => pure .unauthorized
  | some callerDeviceId =>
    match headerValue req.vaultId with
    | none => pure .unauthorized
    | some vaultId =>
      if vaultId ≠ svc.localVaultId then pure .forbidden
      else do
        match ← (Db.getTrustedPeerById callerDeviceId).attempt with
        | .error (_ : PeerError) => pure .internalServerError
        | .ok peer =>
          if peer.any (·.trusted ≠ 0) then servePeerChunk C net cached req.chunkHex
          else pure .forbidden

end OmniDrive
