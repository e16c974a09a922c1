import OmniDrive.Library.Interruption
import OmniDrive.Peers.Service
import OmniDrive.Storage.Cache
import OmniDrive.Storage.RangeRead

/-!
# Chunks from peers

A chunk that is not in the cache is asked of the trusted peers, one after the other, before it is
read from its pack. The bytes of the first peer that answers with success are taken as they come.
-/

namespace OmniDrive

open StatementProgram Tables

variable {P : Primitives} {α : Type}

/-! ## The peer client -/

/-- What becomes of the request to a peer; a transfer that breaks off has no body. -/
inductive ChunkAnswer where
  | success (body : Option Bytes)
  | notFound
  | status (code : String)
  | failed (message : String)
  deriving DecidableEq, Repr

/-- The settings of the client, the clock when the peers are listed and when it is the turn of a
peer, what each peer answers, and for which peers the row of the last error can be written. -/
structure PeerClient where
  staleAfterMs : ℕ
  errorBackoffMs : ℕ
  listedAt : ℤ := 0
  turnAt : String → ℤ := fun _ => 0
  answer : String → ChunkAnswer
  writesRow : String → Bool := fun _ => true

abbrev PeerRowsProg (α : Type) := Prog (List TrustedPeerRecord) PeerError α

namespace PeerClient

/-- The cast of a word to an `i64`. -/
def asI64 (n : ℕ) : ℤ := if n % 2 ^ 64 < 2 ^ 63 then n % 2 ^ 64 else n % 2 ^ 64 - 2 ^ 64

/-- `i64::saturating_sub`. -/
def saturatingSub (a b : ℤ) : ℤ := max (-2 ^ 63) (min (a - b) (2 ^ 63 - 1))

structure PeerPolicy where
  healthScore : ℤ
  stale : Bool
  eligible : Bool
  deriving DecidableEq, Repr

def evaluatePeerPolicy (peer : TrustedPeerRecord) (nowMs : ℤ) (staleAfterMs errorBackoffMs : ℕ) :
    PeerPolicy :=
  let stale := decide (saturatingSub nowMs peer.lastSeenAt > asI64 staleAfterMs)
  let inErrorBackoff := peer.lastError.isSome &&
    decide (saturatingSub nowMs peer.lastSeenAt < asI64 errorBackoffMs)
  let healthScore := 100 - (if peer.trusted = 0 then 35 else 0) - (if stale then 40 else 0) -
    (if peer.lastError.isSome then 25 else 0) - (if peer.lastHandshakeAt.isNone then 10 else 0)
  { healthScore := min (max healthScore 0) 100
    stale
    eligible := decide (peer.trusted ≠ 0) && !stale && !inErrorBackoff }

def listTrustedPeers (peers : List TrustedPeerRecord) : List TrustedPeerRecord :=
  orderBy (fun p => (toLex (OrderDual.toDual p.lastSeenAt, p.deviceName) : Lex (ℤᵒᵈ × String)))
    (peers.filter (·.trusted = 1))

variable (client : PeerClient)

def policy (peer : TrustedPeerRecord) (nowMs : ℤ) : PeerPolicy :=
  evaluatePeerPolicy peer nowMs client.staleAfterMs client.errorBackoffMs

/-- The order in which the peers are asked: eligible first, then healthy, then seen last. -/
def askOrder (peer : TrustedPeerRecord) : Lex (ℕ × Lex (ℤ × ℤ)) :=
  let policy := client.policy peer client.listedAt
  toLex (if policy.eligible then 0 else 1, toLex (-policy.healthScore, -peer.lastSeenAt))

/-- `update_peer_error` in the turn of a peer. -/
def updatePeerError (peerId : String) (lastError : Option String) : PeerRowsProg Unit :=
  if client.writesRow peerId then
    Prog.exec (updateWhere (·.peerId = peerId) fun p =>
      { p with lastError, lastSeenAt := client.turnAt peerId })
  else .fail (.db .unavailable)

/-- Ask the peers in turn. -/
def askPeers : List TrustedPeerRecord → PeerRowsProg (Option Bytes)
  | [] => pure none
  | peer :: rest =>
    if !(client.policy peer (client.turnAt peer.peerId)).eligible then askPeers rest
    else match client.answer peer.peerId with
      | .success body => do
        client.updatePeerError peer.peerId none
        Prog.ofOption .http (body.map some)
      | .notFound => askPeers rest
      | .status code => do
        client.updatePeerError peer.peerId (some ("peer returned " ++ code))
        askPeers rest
      | .failed message => do
        client.updatePeerError peer.peerId (some message)
        askPeers rest

def fetchChunk : PeerRowsProg (Option Bytes) := do
  let peers ← Prog.query listTrustedPeers
  if peers.isEmpty then pure none
  else askPeers client (orderBy client.askOrder peers)

end PeerClient

/-! ## The cache and the peers of a read -/

/-- The disk of the chunk cache, the peers, and the bytes that have been handed to the cache. -/
structure ReadSide where
  disk : CacheDisk
  peers : List TrustedPeerRecord
  handed : List Bytes := []

/-- Where a read caches its chunks. -/
structure CachePlace where
  io : CacheIo
  rootDir : String
  maxBytes : ℕ
  inodeId : ℤ
  inodePath : String
  isPrefetched : Bool

/-- The world of the cache within that of a read. -/
def readCache (w : ReadWorld P ReadSide) : CacheWorld P where
  vault := w.files.vault
  disk := w.cache.disk
  now := w.files.now

def withReadCache (c : CacheWorld P) (w : ReadWorld P ReadSide) : ReadWorld P ReadSide where
  files := { w.files with vault := c.vault, now := c.now }
  cache := { w.cache with disk := c.disk }

/-- Run a program of the cache. -/
def onReadCache (p : CacheProg P α) : ReadProg P ReadSide α :=
  (p.mapError fun _ => DownloaderError.cache).zoom readCache withReadCache

def withReadPeers (peers : List TrustedPeerRecord) (w : ReadWorld P ReadSide) :
    ReadWorld P ReadSide :=
  { w with cache := { w.cache with peers } }

/-- Run a program of the peer client; its errors are input and output errors. -/
def onReadPeers (p : PeerRowsProg α) : ReadProg P ReadSide α :=
  (p.mapError fun _ => DownloaderError.io).zoom (·.cache.peers) withReadPeers

variable (C : ChunkPrimitives P)

def cachedChunk (place : CachePlace) (revisionId chunkIndex : ℤ) : CacheProg P (Option Bytes) :=
  CacheManager.getChunk C place.io (CacheManager.cacheKey revisionId chunkIndex)

def cacheChunk (place : CachePlace) (revisionId : ℤ) (chunk : FileChunkLocation) (bytes : Bytes) :
    CacheProg P Unit :=
  CacheManager.putChunk C place.io place.rootDir place.maxBytes place.inodeId revisionId
    chunk.chunkIndex chunk.packId place.inodePath bytes place.isPrefetched

/-- The cache and the peers that `load_plaintext_chunk` asks; there may be no peer client. -/
def readSources (place : CachePlace) (client : Option PeerClient) : ChunkSources P ReadSide where
  getChunk revisionId chunkIndex := onReadCache (cachedChunk C place revisionId chunkIndex)
  putChunk revisionId chunk bytes := do
    Prog.exec fun w => { w with cache := { w.cache with handed := bytes :: w.cache.handed } }
    onReadCache (cacheChunk C place revisionId chunk bytes)
  fetchChunk _ := match client with
    | some client => onReadPeers client.fetchChunk
    | none => pure none

end OmniDrive
