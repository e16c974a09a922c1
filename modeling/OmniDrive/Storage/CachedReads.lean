import OmniDrive.Peers.PeerReads
import OmniDrive.Peers.Trust
import OmniDrive.Storage.CacheContents
import OmniDrive.Storage.Policies
import OmniDrive.Storage.ReadOutcome

/-!
# Reads through the cache

The reads of the downloader with the chunk cache and the peers behind them: ranges of a revision,
single chunks by their identifier, and the chunks that are fetched ahead. A call that goes through
the chunks of a revision is a task that loads one chunk at a time, so that calls can take turns.
While the cache holds what its keys stand for, a chunk that is loaded is the chunk of the revision.
-/

namespace OmniDrive

open StatementProgram Tables ByteFields Extents Packer Downloader CacheManager

variable {P : Primitives} {C : ChunkPrimitives P} {known : Bytes → Prop} {cur vaultKey : P.Key}
  {keys : UnlockedVaultKeys P} {all chunks : List StoredChunk} {α κ : Type}

/-! ## The programs -/

variable (C) in
/-- The cache and the peers of a read, where the answers of the peers depend on the chunk. -/
def peerSources (place : CachePlace) (clients : Bytes → Option PeerClient) :
    ChunkSources P ReadSide where
  getChunk := (readSources C place none).getChunk
  putChunk := (readSources C place none).putChunk
  fetchChunk chunkId := (readSources C place (clients chunkId)).fetchChunk chunkId

theorem peerSources_const (place : CachePlace) (client : Option PeerClient) :
    peerSources C place (fun _ => client) = readSources C place client := rfl

namespace Downloader

variable (C) in
/-- What a read by identifier does where the cache does not help. -/
def fetchChunkById (place : CachePlace) (net : Network) (chunk : Db.ChunkLookupRecord) :
    ReadProg P ReadSide (Option Bytes) := do
  let vaultKey ← onReadFiles (onVault .vault VaultKeyStore.vaultKeyForV1Read)
  let dek ← onReadFiles (packDek chunk.packId)
  let source ← onReadFiles (downloadPack C net chunk.packId)
  let packBytes ← onReadFiles (readSpoolFile source.localPath)
  let bytes ← Prog.ofExcept (decryptChunkRecord C packBytes (fileChunkOf chunk) vaultKey dek)
  onReadCache (cacheChunk C place chunk.revisionId (fileChunkOf chunk) bytes)
  pure (some bytes)

variable (C) in
/-- `read_plaintext_chunk_by_id`: the chunk is cached under the number that the lookup gives it. -/
def readCachedChunkById (place : Db.ChunkLookupRecord → CachePlace) (net : Network)
    (chunkId : Bytes) : ReadProg P ReadSide (Option Bytes) := do
  match ← onReadFiles (Db.getChunkLookupByChunkId chunkId) with
  | none => pure none
  | some chunk =>
    match ← onReadCache (cachedChunk C (place chunk) chunk.revisionId chunk.chunkIndex) with
    | some bytes => pure (some bytes)
    | none => fetchChunkById C (place chunk) net chunk

/-- Files of up to this size are fetched ahead to their end. -/
def smallFileThreshold : ℤ := 8 * 1024 * 1024

/-- `DEFAULT_CHUNK_SIZE` of the packer. -/
def defaultChunkSize : ℤ := 4 * 1024 * 1024

/-- The numbers of the chunks to fetch ahead, for a read that follows another one or that starts at
the front of a small file. -/
def prefetchTargets (previous : Option ℤ) (revisionSize first last : ℤ) : List ℤ :=
  let ahead := if previous.any (· + 1 = first) then [last + 1, last + 2] else []
  let rest := if 0 < revisionSize ∧ revisionSize ≤ smallFileThreshold ∧ first = 0 then
      let totalChunks := (revisionSize - 1) / defaultChunkSize + 1
      (List.range (totalChunks - (last + 1)).toNat).map fun i => last + 1 + i
    else []
  (orderBy id (ahead ++ rest)).dedup

variable (C) in
/-- Load chunks one after the other for the cache. -/
def loadChunks (net : Network) (sources : ChunkSources P κ) (revisionId : ℤ)
    (vaultKey : P.Key) : DownloadedPacks → List FileChunkLocation → ReadProg P κ Unit
  | _, [] => pure ()
  | downloaded, chunk :: rest => do
    let (_, downloaded) ← loadPlaintextChunk C net sources revisionId vaultKey downloaded chunk
    loadChunks net sources revisionId vaultKey downloaded rest

variable (C) in
def prefetchChunks (net : Network) (sources : ChunkSources P κ) (inodeId revisionId : ℤ)
    (chunkIndexes : List ℤ) : ReadProg P κ Unit := do
  if chunkIndexes.isEmpty then pure ()
  else
    let revision ← onReadFiles (Db.getFileRevision inodeId revisionId)
    let revision ← Prog.ofOption (.noChunksForInode inodeId) revision
    let chunkLocations ←
      onReadFiles (Db.getRevisionChunkLocationsInRange inodeId revisionId 0 revision.size)
    if chunkLocations.isEmpty then pure ()
    else
      let vaultKey ← onReadFiles (onVault .vault VaultKeyStore.vaultKeyForV1Read)
      loadChunks C net sources revisionId vaultKey []
        (chunkLocations.filter fun chunk => chunkIndexes.contains chunk.chunkIndex)

end Downloader

/-! ## Calls as tasks -/

/-- What a call has emitted of a range. -/
structure Emission where
  offset : ℕ
  endOffset : ℕ
  length : ℕ
  emitted : List EmittedPiece := []
  bytesEmitted : ℕ := 0
  deriving DecidableEq

/-- Emit the part of a chunk that lies in the range; the flag says that there are enough bytes. -/
def Emission.take (e : Emission) (chunk : FileChunkLocation) (plaintext : Bytes) :
    Except DownloaderError (Emission × Bool) := do
  let chunkStart ← toU64 chunk.fileOffset "file offset"
  let chunkEnd ← checkedAdd chunkStart plaintext.length "chunk end"
  let sliceStart := max e.offset chunkStart
  let sliceEnd := min e.endOffset chunkEnd
  if sliceStart ≥ sliceEnd then pure (e, false)
  else
    let localStart := sliceStart - chunkStart
    let localEnd := sliceEnd - chunkStart
    let piece := { offset := sliceStart, bytes := slice localStart localEnd plaintext }
    let bytesEmitted := e.bytesEmitted + (localEnd - localStart)
    pure ({ e with emitted := e.emitted ++ [piece], bytesEmitted }, bytesEmitted ≥ e.length)

/-- A call in the middle of the chunks of a revision: it emits a range, or it only loads chunks for
the cache. -/
structure ReadTask (P : Primitives) where
  inodeId : ℤ
  revisionId : ℤ
  readKey : P.Key
  emission : Option Emission
  downloaded : DownloadedPacks := []
  rest : List FileChunkLocation

namespace ReadTask

variable (C : ChunkPrimitives P) (net : Network) (sources : ChunkSources P κ)

/-- Load the next chunk. -/
def next (t : ReadTask P) : ReadProg P κ (ReadTask P) :=
  match t.rest with
  | [] => pure t
  | chunk :: rest => do
    let (plaintext, downloaded) ←
      loadPlaintextChunk C net sources t.revisionId t.readKey t.downloaded chunk
    match t.emission with
    | none => pure { t with downloaded, rest }
    | some e =>
      let (e, enough) ← Prog.ofExcept (e.take chunk plaintext)
      pure { t with emission := some e, downloaded, rest := if enough then [] else rest }

/-- What is left to do of a call that emits. -/
def emit (t : ReadTask P) (e : Emission) : ReadProg P κ (List EmittedPiece) :=
  emitChunks C net sources t.revisionId e.offset e.endOffset e.length t.readKey accept e.emitted
    e.bytesEmitted t.downloaded t.rest

end ReadTask

/-- The start of a read of a range; a read of no bytes has no task. -/
def beginRead (inodeId revisionId : ℤ) (offset length : ℕ) :
    ReadProg P κ (Option (ReadTask P)) := do
  let revision ← onReadFiles (Db.getFileRevision inodeId revisionId)
  let _ ← Prog.ofOption (.noChunksForInode inodeId) revision
  if length = 0 then pure none
  else
    let endOffset ← Prog.ofExcept (checkedAdd offset length "range end")
    let startI64 ← Prog.ofExcept (OmniDrive.toI64 offset "range start")
    let endI64 ← Prog.ofExcept (OmniDrive.toI64 endOffset "range end")
    let chunkLocations ←
      onReadFiles (Db.getRevisionChunkLocationsInRange inodeId revisionId startI64 endI64)
    if chunkLocations.isEmpty then .fail (.noChunksForInode inodeId)
    else
      let readKey ← onReadFiles (onVault .vault VaultKeyStore.vaultKeyForV1Read)
      let emission : Emission := { offset, endOffset, length }
      pure (some
        { inodeId, revisionId, readKey, emission := some emission, rest := chunkLocations })

/-- The start of a call that fetches chunks ahead. -/
def beginPrefetch (inodeId revisionId : ℤ) (chunkIndexes : List ℤ) :
    ReadProg P κ (Option (ReadTask P)) := do
  if chunkIndexes.isEmpty then pure none
  else
    let revision ← onReadFiles (Db.getFileRevision inodeId revisionId)
    let revision ← Prog.ofOption (.noChunksForInode inodeId) revision
    let chunkLocations ←
      onReadFiles (Db.getRevisionChunkLocationsInRange inodeId revisionId 0 revision.size)
    if chunkLocations.isEmpty then pure none
    else
      let readKey ← onReadFiles (onVault .vault VaultKeyStore.vaultKeyForV1Read)
      let rest := chunkLocations.filter fun chunk => chunkIndexes.contains chunk.chunkIndex
      pure (some { inodeId, revisionId, readKey, emission := none, rest })

section Calls

variable {net : Network} {sources : ChunkSources P κ}

/-- A call that emits goes on with its next chunk. -/
theorem ReadTask.emit_next {t : ReadTask P} {e : Emission} {chunk : FileChunkLocation}
    {rest : List FileChunkLocation} (hemission : t.emission = some e)
    (hrest : t.rest = chunk :: rest) :
    t.emit C net sources e = t.next C net sources >>= fun t' =>
      t'.emission.elim (.fail .io) fun e' => t'.emit C net sources e' := by
  rw [emit, hrest, emitChunks, next, hrest, hemission, Prog.bind_assoc]
  apply congrArg (Prog.bind _)
  funext loaded
  obtain ⟨plaintext, downloaded⟩ := loaded
  dsimp only
  rw [Emission.take]
  cases toU64 chunk.fileOffset "file offset" with
  | error err => rfl
  | ok chunkStart =>
    cases hend : checkedAdd chunkStart plaintext.length "chunk end" with
    | error err =>
      rw [Prog.ofExcept_ok, Prog.ret_bind, Prog.except_ok_bind, hend]
      rfl
    | ok chunkEnd =>
      rw [Prog.ofExcept_ok, Prog.ret_bind, Prog.except_ok_bind, hend, Prog.ofExcept_ok,
        Prog.ret_bind, Prog.except_ok_bind]
      dsimp only
      by_cases hempty : max e.offset chunkStart ≥ min e.endOffset chunkEnd
      · rw [if_pos hempty, if_pos hempty]
        rfl
      · rw [if_neg hempty, if_neg hempty, accept, Prog.ofExcept_ok, Prog.ret_bind]
        by_cases henough : e.bytesEmitted + (min e.endOffset chunkEnd - chunkStart -
            (max e.offset chunkStart - chunkStart)) ≥ e.length
        · rw [if_pos henough, decide_eq_true henough]
          rfl
        · rw [if_neg henough, decide_eq_false henough]
          rfl

/-- A streaming read is its start and then its task. -/
theorem readRangeStreamed_eq_emit (inodeId revisionId : ℤ) (offset length : ℕ) :
    readRangeStreamed C net sources inodeId revisionId offset length accept =
      beginRead inodeId revisionId offset length >>= fun task =>
        (task.bind fun t => t.emission.map fun e => t.emit C net sources e).getD (pure []) := by
  rw [readRangeStreamed, beginRead, Prog.bind_assoc]
  apply congrArg (Prog.bind _)
  funext revision
  rw [Prog.bind_assoc]
  apply congrArg (Prog.bind _)
  funext _
  by_cases hzero : length = 0
  · rw [if_pos hzero, if_pos hzero]
    rfl
  rw [if_neg hzero, if_neg hzero, Prog.bind_assoc]
  apply congrArg (Prog.bind _)
  funext endOffset
  rw [Prog.bind_assoc]
  apply congrArg (Prog.bind _)
  funext startI64
  rw [Prog.bind_assoc]
  apply congrArg (Prog.bind _)
  funext endI64
  rw [Prog.bind_assoc]
  apply congrArg (Prog.bind _)
  funext chunkLocations
  split
  · rfl
  · rw [Prog.bind_assoc]
    rfl

/-- A call that fetches chunks ahead goes on with its next chunk. -/
theorem ReadTask.loadChunks_next {t : ReadTask P} {chunk : FileChunkLocation}
    {rest : List FileChunkLocation} (hemission : t.emission = none)
    (hrest : t.rest = chunk :: rest) :
    loadChunks C net sources t.revisionId t.readKey t.downloaded t.rest =
      t.next C net sources >>= fun t' =>
        loadChunks C net sources t'.revisionId t'.readKey t'.downloaded t'.rest := by
  rw [hrest, loadChunks, next, hrest, hemission, Prog.bind_assoc]
  rfl

/-- Fetching chunks ahead is its start and then its task. -/
theorem prefetchChunks_eq_loadChunks (inodeId revisionId : ℤ) (chunkIndexes : List ℤ) :
    prefetchChunks C net sources inodeId revisionId chunkIndexes =
      beginPrefetch inodeId revisionId chunkIndexes >>= fun task =>
        task.elim (pure ()) fun t =>
          loadChunks C net sources t.revisionId t.readKey t.downloaded t.rest := by
  rw [prefetchChunks, beginPrefetch]
  split
  · rfl
  rw [Prog.bind_assoc]
  apply congrArg (Prog.bind _)
  funext revision
  rw [Prog.bind_assoc]
  apply congrArg (Prog.bind _)
  funext revision
  rw [Prog.bind_assoc]
  apply congrArg (Prog.bind _)
  funext chunkLocations
  split
  · rfl
  · rw [Prog.bind_assoc]
    rfl

end Calls

/-! ## Loading a chunk -/

/-- Whatever a peer sends for a chunk has the identifier of the chunk under a DEK of the vault. -/
def HonestPeers (C : ChunkPrimitives P) (known : Bytes → Prop) (n : ℕ)
    (clients : Bytes → Option PeerClient) : Prop :=
  ∀ chunkId client peerId bytes, clients chunkId = some client →
    client.answer peerId = .success (some bytes) →
      known bytes ∧ ∃ k < n, (chunkIdOf C (P.randomKey k) bytes).bytes = chunkId

/-- What the reads of a store rest on. -/
structure ReadSetting (C : ChunkPrimitives P) (known : Bytes → Prop) (n : ℕ)
    (all : List StoredChunk) (clients : Bytes → Option PeerClient) : Prop where
  ideals : P.Ideal
  ideal : C.Ideal
  free : C.CollisionFree n known
  drawn : ∀ c ∈ all, c.keyDraw < n
  separate : Separate C all
  peers : HonestPeers C known n clients

/-- Drawing values from the generator leaves the store in order. -/
theorem StoreInv.drawn {w : FileWorld P}
    (h : StoreInv C known cur vaultKey all chunks (w.opened keys)) {draws : ℕ}
    (hdraws : w.vault.draws ≤ draws) :
    StoreInv C known cur vaultKey all chunks
      (({ w with vault := { w.vault with draws } } : FileWorld P).opened keys) where
  files := by
    obtain ⟨hvault, hdrawn, hdistinct, hknown, hdeks, hmanifests, hshards, hobjects, hdownloads⟩ :=
      h.files
    refine ⟨⟨hvault.envelope, ?_, hvault.deks⟩, fun c hc => (hdrawn c hc).trans_le hdraws,
      hdistinct, hknown, hdeks, hmanifests, hshards, hobjects, hdownloads⟩
    exact run_vaultKeyForV1Read_congr (v := (w.opened keys).vault) rfl rfl hvault.v1
  tables := h.tables
  revisions := h.revisions
  subset := h.subset
  nodup := h.nodup
  fits := h.fits

/-- The store in the middle of reads: it is in order once the vault is open, and the cache holds
what its keys stand for. -/
structure Reading (C : ChunkPrimitives P) (known : Bytes → Prop) (cur vaultKey : P.Key)
    (keys : UnlockedVaultKeys P) (all chunks : List StoredChunk) (rootDir : String) (db : FileDb)
    (w : ReadWorld P ReadSide) : Prop where
  store : StoreInv C known cur vaultKey all chunks (w.files.opened keys)
  slot : w.files.vault.inner = none ∨ w.files.vault.inner = some keys
  tables : w.files.db = db
  holds : Holds C keys rootDir (PieceAt C chunks db) w.cache.disk

section Load

variable {n : ℕ} {clients : Bytes → Option PeerClient} {place : CachePlace} {db : FileDb}
  {w w' : ReadWorld P ReadSide} {rootDir : String}

theorem run_onReadCache' (p : CacheProg P α) (w : ReadWorld P ReadSide) :
    (onReadCache p).run w = ((p.run (readCache w)).1.mapError fun _ => DownloaderError.cache,
      withReadCache (p.run (readCache w)).2 w) := by
  rw [onReadCache, Prog.run_zoom readCache withReadCache (fun _ _ => rfl) (fun _ _ _ => rfl)
    (fun _ => rfl), Prog.run_mapError]

/-- The rows of the peers do not matter. -/
theorem Reading.withPeers (h : Reading C known cur vaultKey keys all chunks rootDir db w)
    (peers : List TrustedPeerRecord) (handed : List Bytes) :
    Reading C known cur vaultKey keys all chunks rootDir db
      { w with cache := { w.cache with peers, handed } } :=
  ⟨h.store, h.slot, h.tables, h.holds⟩

/-- What was fetched for a read. -/
theorem Reading.fetched (h : Reading C known cur vaultKey keys all chunks rootDir db w)
    {files : FileWorld P} (hfetched : Fetched C known cur vaultKey keys all chunks w.files files) :
    Reading C known cur vaultKey keys all chunks rootDir db { w with files } := by
  obtain ⟨downloads, hfiles⟩ := hfetched.world
  refine ⟨hfetched.store, ?_, ?_, h.holds⟩
  · rw [hfiles]
    exact h.slot
  · rw [hfiles]
    exact h.tables

/-- A lookup in the cache. -/
theorem reading_cachedChunk (h : Reading C known cur vaultKey keys all chunks place.rootDir db w)
    {revisionId chunkIndex : ℤ} {out : Except DownloaderError (Option Bytes)}
    (hrun : (onReadCache (cachedChunk C place revisionId chunkIndex)).run w = (out, w')) :
    Reading C known cur vaultKey keys all chunks place.rootDir db w' ∧
      ∀ bytes, out = .ok (some bytes) → PieceAt C chunks db revisionId chunkIndex bytes := by
  rw [run_onReadCache'] at hrun
  rcases hget : (cachedChunk C place revisionId chunkIndex).run (readCache w) with ⟨r, c⟩
  obtain ⟨⟨disk, hworld, hdisk⟩, hright⟩ := lookedUp_of_run h.slot h.holds hget
  rw [hget, hworld] at hrun
  obtain ⟨rfl, rfl⟩ := Prod.mk.inj hrun
  refine ⟨⟨h.store, h.slot, h.tables, hdisk⟩, fun bytes hbytes => hright bytes ?_⟩
  rcases r with e | found
  · cases hbytes
  · exact congrArg _ (Except.ok.inj hbytes)

/-- An insertion of the right bytes. -/
theorem reading_cacheChunk (ideal : C.Ideal)
    (h : Reading C known cur vaultKey keys all chunks place.rootDir db w) {revisionId : ℤ}
    {chunk : FileChunkLocation} {bytes : Bytes}
    (hpiece : PieceAt C chunks db revisionId chunk.chunkIndex bytes)
    {out : Except DownloaderError Unit}
    (hrun : (onReadCache (cacheChunk C place revisionId chunk bytes)).run w = (out, w')) :
    Reading C known cur vaultKey keys all chunks place.rootDir db w' := by
  rw [run_onReadCache'] at hrun
  rcases hput : (cacheChunk C place revisionId chunk bytes).run (readCache w) with ⟨r, c⟩
  obtain ⟨⟨disk, draws, hworld, hdraws, hdisk⟩, -⟩ :=
    inserted_of_run ideal h.slot h.holds hpiece hput
  rw [hput, hworld] at hrun
  obtain ⟨rfl, rfl⟩ := Prod.mk.inj hrun
  exact ⟨h.store.drawn hdraws, h.slot, h.tables, hdisk⟩

/-- What an honest peer sends for a stored chunk is its plaintext. -/
theorem HonestPeers.bytes_eq {n : ℕ} (hfree : C.CollisionFree n known)
    {clients : Bytes → Option PeerClient} (h : HonestPeers C known n clients) {c : StoredChunk}
    (hdrawn : c.keyDraw < n) (hknown : known c.plaintext) {client : PeerClient}
    (hclient : clients (c.chunkId C).bytes = some client) {rows : List TrustedPeerRecord}
    {bytes : Bytes} (hfetch : (client.fetchChunk.run rows).1 = .ok (some bytes)) :
    bytes = c.plaintext := by
  obtain ⟨-, peer, -, -, -, hsends, -⟩ := ((client.run_fetchChunk rows).2 bytes).mp hfetch
  obtain ⟨hbytes, k, hk, hid⟩ := h _ _ _ _ hclient hsends
  exact (hfree k c.keyDraw bytes c.plaintext hk hdrawn hbytes hknown (FixedBytes.ext hid)).2

/-- A request to the peers. -/
theorem reading_fetchChunk (h : Reading C known cur vaultKey keys all chunks rootDir db w)
    {chunkId : Bytes} {out : Except DownloaderError (Option Bytes)}
    (hrun : ((peerSources C place clients).fetchChunk chunkId).run w = (out, w')) :
    Reading C known cur vaultKey keys all chunks rootDir db w' ∧
      ∀ bytes, out = .ok (some bytes) → ∃ client, clients chunkId = some client ∧
        (client.fetchChunk.run w.cache.peers).1 = .ok (some bytes) := by
  rcases hclient : clients chunkId with _ | client
  · have hnone : ((peerSources C place clients).fetchChunk chunkId).run w = (.ok none, w) := by
      simp only [peerSources, readSources, hclient]
      rfl
    rw [hnone] at hrun
    cases hrun
    exact ⟨h, fun bytes hbytes => by cases hbytes⟩
  · have hsome : ((peerSources C place clients).fetchChunk chunkId).run w =
        ((client.fetchChunk.run w.cache.peers).1.mapError fun _ => DownloaderError.io,
          withReadPeers (client.fetchChunk.run w.cache.peers).2 w) := by
      simp only [peerSources, readSources, hclient]
      rw [onReadPeers, Prog.run_zoom (fun w : ReadWorld P ReadSide => w.cache.peers) withReadPeers
        (fun _ _ => rfl) (fun _ _ _ => rfl) (fun _ => rfl), Prog.run_mapError]
    rw [hsome] at hrun
    obtain ⟨rfl, rfl⟩ := Prod.mk.inj hrun
    refine ⟨h.withPeers _ _, fun bytes hbytes => ⟨client, rfl, ?_⟩⟩
    rcases hfetch : (client.fetchChunk.run w.cache.peers).1 with e | found
    · rw [hfetch] at hbytes
      cases hbytes
    · rw [hfetch] at hbytes
      exact congrArg _ (Except.ok.inj hbytes)

/-- An insertion that notes what is handed to the cache. -/
theorem reading_putChunk (ideal : C.Ideal)
    (h : Reading C known cur vaultKey keys all chunks place.rootDir db w) {revisionId : ℤ}
    {chunk : FileChunkLocation} {bytes : Bytes}
    (hpiece : PieceAt C chunks db revisionId chunk.chunkIndex bytes)
    {out : Except DownloaderError Unit}
    (hrun : ((peerSources C place clients).putChunk revisionId chunk bytes).run w = (out, w')) :
    Reading C known cur vaultKey keys all chunks place.rootDir db w' :=
  reading_cacheChunk ideal (h.withPeers w.cache.peers (bytes :: w.cache.handed)) hpiece hrun

/-- A chunk of a peer goes through the cache. -/
theorem loaded_of_peer (hset : ReadSetting C known n all clients)
    (h : Reading C known cur vaultKey keys all chunks place.rootDir db w) {c : StoredChunk}
    (hc : c ∈ chunks) {revisionId : ℤ} {index : ℕ} {offset : ℤ}
    (hpiece : PieceAt C chunks db revisionId index c.plaintext)
    {out : Except DownloaderError (Option Bytes)}
    (hrun : (tryFetchChunkFromPeer (peerSources C place clients) revisionId
      (c.locationAt C index offset)).run w = (out, w')) :
    Reading C known cur vaultKey keys all chunks place.rootDir db w' ∧
      ∀ bytes, out = .ok (some bytes) → bytes = c.plaintext := by
  have hsub := h.store.subset
  rw [tryFetchChunkFromPeer] at hrun
  rcases hfetch : ((peerSources C place clients).fetchChunk
    (c.locationAt C index offset).chunkId).run w with ⟨fetched, w₁⟩
  obtain ⟨h₁, hfrom⟩ := reading_fetchChunk h hfetch
  rcases fetched with e | fetched
  · rw [Prog.run_bind_of_error hfetch] at hrun
    cases hrun
    exact ⟨h₁, fun bytes hbytes => by cases hbytes⟩
  rw [Prog.run_bind_of_ok hfetch] at hrun
  rcases fetched with _ | bytes
  · cases hrun
    exact ⟨h₁, fun bytes hbytes => by cases hbytes⟩
  obtain ⟨client, hclient, hsent⟩ := hfrom bytes rfl
  obtain rfl := hset.peers.bytes_eq hset.free (hset.drawn c (hsub c hc))
    (h.store.files.known c (hsub c hc)) hclient hsent
  dsimp only at hrun
  rcases hput : ((peerSources C place clients).putChunk revisionId (c.locationAt C index offset)
    c.plaintext).run w₁ with ⟨put, w₂⟩
  have h₂ := reading_putChunk hset.ideal h₁ hpiece hput
  rcases put with e | u
  · rw [Prog.run_bind_of_error hput] at hrun
    cases hrun
    exact ⟨h₂, fun bytes hbytes => by cases hbytes⟩
  rw [Prog.run_bind_of_ok hput] at hrun
  rcases hget : ((peerSources C place clients).getChunk revisionId
    (c.locationAt C index offset).chunkIndex).run w₂ with ⟨got, w₃⟩
  obtain ⟨h₃, hcached⟩ := reading_cachedChunk h₂ hget
  rcases got with e | cached
  · rw [Prog.run_bind_of_error hget] at hrun
    cases hrun
    exact ⟨h₃, fun bytes hbytes => by cases hbytes⟩
  rw [Prog.run_bind_of_ok hget] at hrun
  rcases cached with _ | cached
  · cases hrun
    exact ⟨h₃, fun bytes hbytes => (Option.some.inj (Except.ok.inj hbytes)).symm⟩
  · cases hrun
    refine ⟨h₃, fun bytes hbytes => ?_⟩
    cases hbytes
    exact (hcached cached rfl).unique hset.separate hsub hpiece

/-- A chunk that is loaded is the chunk of the revision, from wherever it comes. -/
theorem loaded_of_run (hset : ReadSetting C known n all clients)
    (h : Reading C known cur vaultKey keys all chunks place.rootDir db w) {c : StoredChunk}
    (hc : c ∈ chunks) {revisionId : ℤ} {index : ℕ} {offset : ℤ}
    (hpiece : PieceAt C chunks db revisionId index c.plaintext) (net : Network) (readKey : P.Key)
    {downloaded : DownloadedPacks} (hsources : SourcesOf C chunks downloaded)
    {out : Except DownloaderError (Bytes × DownloadedPacks)}
    (hrun : (loadPlaintextChunk C net (peerSources C place clients) revisionId readKey downloaded
      (c.locationAt C index offset)).run w = (out, w')) :
    Reading C known cur vaultKey keys all chunks place.rootDir db w' ∧
      ∀ bytes downloaded', out = .ok (bytes, downloaded') →
        bytes = c.plaintext ∧ SourcesOf C chunks downloaded' := by
  rw [loadPlaintextChunk] at hrun
  rcases hget : ((peerSources C place clients).getChunk revisionId
    (c.locationAt C index offset).chunkIndex).run w with ⟨got, w₁⟩
  obtain ⟨h₁, hcached⟩ := reading_cachedChunk h hget
  rcases got with e | cached
  · rw [Prog.run_bind_of_error hget] at hrun
    cases hrun
    exact ⟨h₁, fun _ _ hok => by cases hok⟩
  rw [Prog.run_bind_of_ok hget] at hrun
  rcases cached with _ | cached
  · dsimp only at hrun
    rcases hpeer : (tryFetchChunkFromPeer (peerSources C place clients) revisionId
      (c.locationAt C index offset)).run w₁ with ⟨fetched, w₂⟩
    obtain ⟨h₂, hfetched⟩ := loaded_of_peer hset h₁ hc hpiece hpeer
    rcases fetched with e | fetched
    · rw [Prog.run_bind_of_error hpeer] at hrun
      cases hrun
      exact ⟨h₂, fun _ _ hok => by cases hok⟩
    rw [Prog.run_bind_of_ok hpeer] at hrun
    rcases fetched with _ | bytes
    · dsimp only at hrun
      have hread := run_onReadFiles (κ := ReadSide)
        (readChunk C net readKey downloaded (c.locationAt C index offset)) w₂
      rcases hchunk : (readChunk C net readKey downloaded (c.locationAt C index offset)).run
        w₂.files with ⟨read, files⟩
      obtain ⟨hfiles, hright⟩ := fetched_readChunk hset.ideal net hset.separate h₂.store hc
        hset.ideals h₂.slot hsources index offset readKey hchunk
      rw [hchunk] at hread
      have h₃ := h₂.fetched hfiles
      rcases read with e | ⟨plaintext, downloaded'⟩
      · rw [Prog.run_bind_of_error hread] at hrun
        cases hrun
        exact ⟨h₃, fun _ _ hok => by cases hok⟩
      obtain ⟨rfl, hsources'⟩ := hright plaintext downloaded' rfl
      rw [Prog.run_bind_of_ok hread] at hrun
      dsimp only at hrun
      rcases hput : ((peerSources C place clients).putChunk revisionId
        (c.locationAt C index offset) c.plaintext).run { w₂ with files } with ⟨put, w₄⟩
      have h₄ := reading_putChunk hset.ideal h₃ hpiece hput
      rcases put with e | u
      · rw [Prog.run_bind_of_error hput] at hrun
        cases hrun
        exact ⟨h₄, fun _ _ hok => by cases hok⟩
      · rw [Prog.run_bind_of_ok hput] at hrun
        cases hrun
        refine ⟨h₄, fun bytes' downloaded'' hok => ?_⟩
        cases hok
        exact ⟨rfl, hsources'⟩
    · cases hrun
      refine ⟨h₂, fun bytes' downloaded' hok => ?_⟩
      cases hok
      exact ⟨hfetched bytes rfl, hsources⟩
  · cases hrun
    refine ⟨h₁, fun bytes' downloaded' hok => ?_⟩
    cases hok
    exact ⟨(hcached cached rfl).unique hset.separate h.store.subset hpiece, hsources⟩

end Load

/-! ## The steps of a task -/

/-- These pieces are the bytes of the file in the range, one behind the other. -/
structure RightPieces (file : Bytes) (offset length : ℕ) (pieces : List EmittedPiece) : Prop where
  bytes : bytesOf pieces = slice offset (min (offset + length) file.length) file
  contiguous : ContiguousFrom offset pieces

/-- What has been emitted and what is left to emit are the range. -/
structure Emitting (file : Bytes) (e : Emission) (rest : List FileChunkLocation) : Prop where
  range : e.offset + e.length = e.endOffset
  inside : ∀ l ∈ rest, 0 ≤ l.fileOffset ∧ 0 ≤ l.size ∧ l.fileOffset + l.size ≤ file.length
  fits : ∃ a, e.bytesEmitted + e.offset ≤ a ∧
    Fits a e.endOffset (windows e.offset e.endOffset rest)
  pieces : RightPieces file e.offset e.length
    (e.emitted ++ (windows e.offset e.endOffset rest).map (pieceAt file))

/-- The part of a chunk is emitted. -/
theorem Emitting.take {file plaintext : Bytes} {e e' : Emission} {chunk : FileChunkLocation}
    {rest : List FileChunkLocation} {enough : Bool} (h : Emitting file e (chunk :: rest))
    (hplain : plaintext =
      slice chunk.fileOffset.toNat (chunk.fileOffset + chunk.size).toNat file)
    (htake : e.take chunk plaintext = .ok (e', enough)) :
    Emitting file e' (if enough then [] else rest) := by
  obtain ⟨hlow, hsize, hhigh⟩ := h.inside chunk List.mem_cons_self
  have hinside := fun l hl => h.inside l (List.mem_cons_of_mem _ hl)
  obtain ⟨a, hcount, hfits⟩ := h.fits
  have hpieces := h.pieces
  have hrange := h.range
  rw [Emission.take, toU64, if_pos hlow, Prog.except_ok_bind] at htake
  have hend : chunk.fileOffset.toNat + plaintext.length =
      (chunk.fileOffset + chunk.size).toNat := by
    rw [hplain, length_slice]
    omega
  rw [checkedAdd, hend] at htake
  split at htake
  swap
  · cases htake
  rw [Prog.except_ok_bind] at htake
  rw [windows_cons] at hfits hpieces
  by_cases hempty : max e.offset chunk.fileOffset.toNat ≥
      min e.endOffset (chunk.fileOffset + chunk.size).toNat
  · have hwindow : ¬ (window e.offset e.endOffset chunk.fileOffset chunk.size).start <
        (window e.offset e.endOffset chunk.fileOffset chunk.size).stop := not_lt.mpr hempty
    rw [if_neg hwindow] at hfits hpieces
    dsimp only at htake
    rw [if_pos hempty] at htake
    cases htake
    exact ⟨hrange, hinside, ⟨a, hcount, hfits⟩, hpieces⟩
  · have hwindow : (window e.offset e.endOffset chunk.fileOffset chunk.size).start <
        (window e.offset e.endOffset chunk.fileOffset chunk.size).stop := not_le.mp hempty
    rw [if_pos hwindow] at hfits hpieces
    obtain ⟨hbefore, -, hrest⟩ := hfits
    have hpiece : slice (max e.offset chunk.fileOffset.toNat - chunk.fileOffset.toNat)
        (min e.endOffset (chunk.fileOffset + chunk.size).toNat - chunk.fileOffset.toNat) plaintext =
          slice (window e.offset e.endOffset chunk.fileOffset chunk.size).start
            (window e.offset e.endOffset chunk.fileOffset chunk.size).stop file := by
      rw [hplain, slice_slice (le_max_right _ _) (min_le_right _ _)]
      rfl
    dsimp only at htake
    rw [if_neg hempty, hpiece] at htake
    rw [List.map_cons, ← List.singleton_append, ← List.append_assoc] at hpieces
    simp only [window] at hbefore hrest
    cases htake
    by_cases henough : e.bytesEmitted + (min e.endOffset (chunk.fileOffset + chunk.size).toNat -
        chunk.fileOffset.toNat - (max e.offset chunk.fileOffset.toNat -
          chunk.fileOffset.toNat)) ≥ e.length
    · -- enough bytes: the range ends here, and there is nothing behind it
      have hstop : min e.endOffset (chunk.fileOffset + chunk.size).toNat = e.endOffset := by omega
      rw [hstop] at hrest
      rw [if_pos (decide_eq_true henough)]
      rw [hrest.eq_nil] at hpieces
      refine ⟨hrange, fun l hl => (by cases hl), ⟨e.endOffset, ?_, le_refl e.endOffset⟩, hpieces⟩
      dsimp only
      omega
    · rw [if_neg (by simpa using henough)]
      refine ⟨hrange, hinside, ⟨_, ?_, hrest⟩, hpieces⟩
      dsimp only
      omega

/-- A task of a call: the revision has these bytes, and what is left to load are its chunks. -/
structure TaskInv (C : ChunkPrimitives P) (chunks : List StoredChunk) (db : FileDb) (file : Bytes)
    (t : ReadTask P) : Prop where
  contents : ContentsOf C chunks db t.revisionId file
  sources : SourcesOf C chunks t.downloaded
  located : ∀ l ∈ t.rest, Located C chunks db t.revisionId file l
  emits : ∀ e ∈ t.emission, Emitting file e t.rest

section Tasks

variable {n : ℕ} {clients : Bytes → Option PeerClient} {place : CachePlace} {db : FileDb}
  {w w' : ReadWorld P ReadSide} {file : Bytes} {t : ReadTask P} {net : Network}
  {inodeId revisionId : ℤ} {rootDir : String}

/-- A step of a task loads a chunk of its revision, or the call fails. -/
theorem TaskInv.next (hset : ReadSetting C known n all clients)
    (h : Reading C known cur vaultKey keys all chunks place.rootDir db w)
    (ht : TaskInv C chunks db file t) {out : Except DownloaderError (ReadTask P)}
    (hrun : (t.next C net (peerSources C place clients)).run w = (out, w')) :
    Reading C known cur vaultKey keys all chunks place.rootDir db w' ∧
      ∀ t', out = .ok t' → TaskInv C chunks db file t' := by
  rcases hrest : t.rest with _ | ⟨l, rest⟩
  · rw [ReadTask.next, hrest] at hrun
    cases hrun
    refine ⟨h, fun t' hok => ?_⟩
    cases hok
    exact ht
  obtain ⟨hcontents, hsources, hlocated, hemits⟩ := ht
  rw [hrest] at hlocated hemits
  obtain ⟨c, hc, index, offset, rfl, hpiece, hplain⟩ := hlocated l List.mem_cons_self
  have hlocated' := fun l hl => hlocated l (List.mem_cons_of_mem _ hl)
  rw [ReadTask.next, hrest] at hrun
  dsimp only at hrun
  rcases hload : (loadPlaintextChunk C net (peerSources C place clients) t.revisionId t.readKey
    t.downloaded (c.locationAt C index offset)).run w with ⟨loaded, w₁⟩
  obtain ⟨h₁, hright⟩ := loaded_of_run hset h hc hpiece net t.readKey hsources hload
  rcases loaded with e | ⟨plaintext, downloaded⟩
  · rw [Prog.run_bind_of_error hload] at hrun
    cases hrun
    exact ⟨h₁, fun _ hok => by cases hok⟩
  obtain ⟨rfl, hsources'⟩ := hright plaintext downloaded rfl
  rw [Prog.run_bind_of_ok hload] at hrun
  dsimp only at hrun
  rcases hemission : t.emission with _ | e
  · rw [hemission] at hrun
    cases hrun
    refine ⟨h₁, fun t' hok => ?_⟩
    cases hok
    exact ⟨hcontents, hsources', hlocated', fun e he => by cases he⟩
  rw [hemission] at hrun
  dsimp only at hrun
  rcases htake : e.take (c.locationAt C index offset) c.plaintext with err | ⟨e', enough⟩
  · rw [htake] at hrun
    cases hrun
    exact ⟨h₁, fun _ hok => by cases hok⟩
  rw [htake] at hrun
  cases hrun
  refine ⟨h₁, fun t' hok => ?_⟩
  cases hok
  have hemitting := (hemits e hemission).take hplain htake
  refine ⟨hcontents, hsources', fun l hl => ?_, fun e'' he => ?_⟩
  · dsimp only at hl
    split at hl
    · cases hl
    · exact hlocated' l hl
  · cases he
    exact hemitting

/-- A program that changes nothing of the files changes nothing. -/
theorem fixes_onReadFiles {p : FileProg P DownloaderError α} (hp : p.Fixes id) :
    (onReadFiles p : ReadProg P κ α).Fixes id := by
  refine Prog.Fixes.zoom_frame ?_ hp
  intro files w hsame
  exact congrArg (fun files => { w with files }) hsame

theorem fixes_readKey : (onReadFiles (onVault .vault VaultKeyStore.vaultKeyForV1Read) :
    ReadProg P κ P.Key).Fixes id :=
  fixes_onReadFiles (fixes_onVault_id fixes_vaultKeyForV1Read)

/-- The start of a read changes nothing. -/
theorem fixes_beginRead (inodeId revisionId : ℤ) (offset length : ℕ) :
    (beginRead inodeId revisionId offset length : ReadProg P κ _).Fixes id := by
  apply (fixes_onReadFiles (Prog.Fixes.query _)).bind
  intro revision
  apply (Prog.Fixes.ofOption _ _).bind
  intro revision
  split
  · exact Prog.Fixes.pure _
  apply (Prog.Fixes.ofExcept _).bind
  intro endOffset
  apply (Prog.Fixes.ofExcept _).bind
  intro startI64
  apply (Prog.Fixes.ofExcept _).bind
  intro endI64
  apply (fixes_onReadFiles (Prog.Fixes.query _)).bind
  intro chunkLocations
  split
  · trivial
  · exact fixes_readKey.bind fun readKey => Prog.Fixes.pure _

theorem fixes_beginPrefetch (inodeId revisionId : ℤ) (chunkIndexes : List ℤ) :
    (beginPrefetch inodeId revisionId chunkIndexes : ReadProg P κ _).Fixes id := by
  rw [beginPrefetch]
  split
  · exact Prog.Fixes.pure _
  apply (fixes_onReadFiles (Prog.Fixes.query _)).bind
  intro revision
  apply (Prog.Fixes.ofOption _ _).bind
  intro revision
  apply (fixes_onReadFiles (Prog.Fixes.query _)).bind
  intro chunkLocations
  split
  · exact Prog.Fixes.pure _
  · exact fixes_readKey.bind fun readKey => Prog.Fixes.pure _

/-- The chunks of a revision in a range are those of its bytes. -/
theorem Reading.located (separate : Separate C all)
    (h : Reading C known cur vaultKey keys all chunks rootDir db w)
    {r : FileRevisionRecord} (hr : Db.revisionOf inodeId revisionId w.files.db = some r) :
    ∃ file, ContentsOf C chunks db revisionId file ∧ ∀ startOffset endOffset,
      ∀ l ∈ Db.revisionLocationsInRange inodeId revisionId startOffset endOffset w.files.db,
        Located C chunks db revisionId file l := by
  obtain ⟨hrow, hrefs⟩ := revisionRefs_eq hr
  obtain ⟨file, hcontents⟩ := h.store.revisions.contentsOf hrow
  refine ⟨file, h.tables ▸ hcontents, fun startOffset endOffset l hl => ?_⟩
  rw [Db.revisionLocationsInRange, List.mem_filter, hrefs] at hl
  have hlocated := located_of_mem separate h.store.tables h.store.subset hcontents hl.1
  exact h.tables ▸ hlocated

/-- The parts of all chunks of a revision are its bytes in a range. -/
theorem rightPieces_refWindows (separate : Separate C all)
    (h : Reading C known cur vaultKey keys all chunks rootDir db w)
    {r : FileRevisionRecord} (hr : Db.revisionOf inodeId revisionId w.files.db = some r)
    (hcontents : ContentsOf C chunks w.files.db revisionId file) (offset length : ℕ) :
    RightPieces file offset length ((refWindows offset (offset + length)
      (locatedRefs inodeId revisionId w.files.db)).map (pieceAt file)) := by
  obtain ⟨-, hrefs⟩ := revisionRefs_eq hr
  have htiles := tiles_refRows hcontents
  rw [← hrefs] at htiles
  have hlocated : AllLocated inodeId revisionId offset (offset + length) w.files.db := by
    intro cr hcr _
    rw [hrefs] at hcr
    exact isLocated_of_mem separate h.store.tables h.store.subset hcontents hcr
  refine ⟨?_, ?_⟩
  · rw [bytesOf_pieceAt]
    exact (cut_eq_iff_allLocated htiles).mpr hlocated
  · by_cases hbehind : file.length ≤ offset
    · rw [refWindows_locatedRefs_eq_nil htiles hbehind]
      trivial
    · have hoffset := (not_le.mp hbehind).le
      rw [contiguousFrom_iff (fits_locatedRefs htiles hoffset length) (min_le_right _ _),
        joined_iff_noGap htiles hoffset]
      exact fun cr hcr _ _ hoverlaps _ _ _ => hlocated cr hcr hoverlaps

/-- A task that emits is started with the whole range left to emit. -/
theorem emitting_start (separate : Separate C all)
    (h : Reading C known cur vaultKey keys all chunks rootDir db w)
    {r : FileRevisionRecord} (hr : Db.revisionOf inodeId revisionId w.files.db = some r)
    (hcontents : ContentsOf C chunks w.files.db revisionId file) {offset length : ℕ}
    (hsome : Db.revisionLocationsInRange inodeId revisionId offset (offset + length : ℕ)
      w.files.db ≠ []) :
    Emitting file { offset, endOffset := offset + length, length }
      (Db.revisionLocationsInRange inodeId revisionId offset (offset + length : ℕ) w.files.db) := by
  have htiles := tiles_refRows hcontents
  rw [← (revisionRefs_eq hr).2] at htiles
  have hinside : ∀ l ∈ Db.revisionLocationsInRange inodeId revisionId offset (offset + length : ℕ)
      w.files.db, 0 ≤ l.fileOffset ∧ 0 ≤ l.size ∧ l.fileOffset + l.size ≤ file.length := by
    intro l hl
    obtain ⟨cr, hcr, hstart, hsize⟩ := mem_locateAll (List.mem_filter.mp hl).1
    rw [hstart, hsize]
    exact htiles.inside cr hcr
  have hwindows : windows offset (offset + length) (Db.revisionLocationsInRange inodeId revisionId
      offset (offset + length : ℕ) w.files.db) =
        refWindows offset (offset + length) (locatedRefs inodeId revisionId w.files.db) := by
    rw [Db.revisionLocationsInRange, windows_filter, Db.locateAll, windows_locate]
    rfl
  have hoffset : offset ≤ file.length := by
    obtain ⟨l, hl⟩ := List.exists_mem_of_ne_nil _ hsome
    have hin := hinside l hl
    have hrange := (List.mem_filter.mp hl).2
    rw [Bool.and_eq_true, decide_eq_true_eq, decide_eq_true_eq] at hrange
    omega
  refine ⟨rfl, hinside, ⟨offset, (Nat.zero_add _).le, ?_⟩, ?_⟩
  · rw [hwindows]
    exact (fits_locatedRefs htiles hoffset length).mono (min_le_left _ _)
  · rw [hwindows, List.nil_append]
    exact rightPieces_refWindows separate h hr hcontents offset length

/-- What the start of a read returns. -/
theorem begun_of_run (separate : Separate C all)
    (h : Reading C known cur vaultKey keys all chunks rootDir db w) {offset length : ℕ}
    {task : Option (ReadTask P)}
    (hrun : (beginRead inodeId revisionId offset length).run w = (.ok task, w')) :
    ∃ file, ContentsOf C chunks db revisionId file ∧ (task = none → length = 0) ∧
      ∀ t ∈ task, TaskInv C chunks db file t := by
  have hrevision : (onReadFiles (Db.getFileRevision inodeId revisionId) :
      ReadProg P ReadSide (Option FileRevisionRecord)).run w =
        (.ok (Db.revisionOf inodeId revisionId w.files.db), w) := rfl
  rw [beginRead, Prog.run_bind_of_ok hrevision] at hrun
  obtain ⟨r, hr, hrun⟩ := Prog.run_ofOption_bind_ok hrun
  obtain ⟨file, hcontents, hlocated⟩ := h.located separate hr
  refine ⟨file, hcontents, ?_⟩
  split at hrun
  · rename_i hzero
    cases hrun
    exact ⟨fun _ => hzero, fun t ht => by cases ht⟩
  obtain ⟨endOffset, hend, hrun⟩ := Prog.run_ofExcept_bind_ok hrun
  obtain ⟨startI64, hstart64, hrun⟩ := Prog.run_ofExcept_bind_ok hrun
  obtain ⟨endI64, hend64, hrun⟩ := Prog.run_ofExcept_bind_ok hrun
  rw [checkedAdd_eq_ok hend] at hend64 hrun
  rw [Downloader.toI64_eq_ok hstart64, Downloader.toI64_eq_ok hend64] at hrun
  have hlocations : (onReadFiles (Db.getRevisionChunkLocationsInRange inodeId revisionId offset
      (offset + length : ℕ)) : ReadProg P ReadSide (List FileChunkLocation)).run w =
        (.ok (Db.revisionLocationsInRange inodeId revisionId offset (offset + length : ℕ)
          w.files.db), w) := rfl
  rw [Prog.run_bind_of_ok hlocations] at hrun
  split at hrun
  · cases hrun
  rename_i hsome
  rw [List.isEmpty_iff] at hsome
  obtain ⟨readKey, w₁, -, hrun⟩ := Prog.run_bind_ok hrun
  cases hrun
  refine ⟨fun hnone => (by cases hnone), fun t ht => ?_⟩
  cases ht
  refine ⟨hcontents, .nil, hlocated _ _, fun e he => ?_⟩
  cases he
  exact emitting_start separate h hr (h.tables ▸ hcontents) hsome

theorem begun_prefetch_of_run (separate : Separate C all)
    (h : Reading C known cur vaultKey keys all chunks rootDir db w) {chunkIndexes : List ℤ}
    {t : ReadTask P}
    (hrun : (beginPrefetch inodeId revisionId chunkIndexes).run w = (.ok (some t), w')) :
    ∃ file, TaskInv C chunks db file t := by
  have hrevision : (onReadFiles (Db.getFileRevision inodeId revisionId) :
      ReadProg P ReadSide (Option FileRevisionRecord)).run w =
        (.ok (Db.revisionOf inodeId revisionId w.files.db), w) := rfl
  rw [beginPrefetch] at hrun
  split at hrun
  · cases hrun
  rw [Prog.run_bind_of_ok hrevision] at hrun
  obtain ⟨r, hr, hrun⟩ := Prog.run_ofOption_bind_ok hrun
  obtain ⟨file, hcontents, hlocated⟩ := h.located separate hr
  have hlocations : (onReadFiles (Db.getRevisionChunkLocationsInRange inodeId revisionId 0
      r.size) : ReadProg P ReadSide (List FileChunkLocation)).run w =
        (.ok (Db.revisionLocationsInRange inodeId revisionId 0 r.size w.files.db), w) := rfl
  rw [Prog.run_bind_of_ok hlocations] at hrun
  split at hrun
  · cases hrun
  obtain ⟨readKey, w₁, -, hrun⟩ := Prog.run_bind_ok hrun
  cases hrun
  exact ⟨file, hcontents, .nil, fun l hl => hlocated 0 r.size l (List.mem_filter.mp hl).1,
    fun e he => by cases he⟩

end Tasks

/-! ## Reads by identifier -/

section ById

variable {n : ℕ} {clients : Bytes → Option PeerClient} {db : FileDb} {w w' : ReadWorld P ReadSide}
  {net : Network} {rootDir : String} {chunkId : Bytes}

/-- A chunk that is fetched by its identifier is decrypted to its plaintext, and the cache takes it
under the number of the lookup. -/
theorem fetchedById_of_run (hset : ReadSetting C known n all clients) {place : CachePlace}
    (h : Reading C known cur vaultKey keys all chunks place.rootDir db w)
    {chunk : Db.ChunkLookupRecord} {c : StoredChunk}
    (hfound : FoundChunk C chunks db chunkId chunk c)
    {out : Except DownloaderError (Option Bytes)}
    (hrun : (fetchChunkById C place net chunk).run w = (out, w')) :
    (Reading C known cur vaultKey keys all chunks place.rootDir db w' ∧ ∃ e, out = .error e) ∨
      ∃ w₁ put, Reading C known cur vaultKey keys all chunks place.rootDir db w₁ ∧
        (onReadCache (cacheChunk C place chunk.revisionId (fileChunkOf chunk) c.plaintext)).run w₁ =
          (put, w') ∧ out = put.map fun _ => some c.plaintext := by
  obtain ⟨number, offset, hlocation⟩ := hfound.location
  have hpack : chunk.packId = c.packId C := congrArg (·.packId) hlocation
  rw [fetchChunkById] at hrun
  rcases hkey : (onReadFiles (onVault .vault VaultKeyStore.vaultKeyForV1Read) :
    ReadProg P ReadSide P.Key).run w with ⟨got, w₁⟩
  obtain rfl : w₁ = w := by simpa [hkey] using fixes_readKey.run w
  rcases got with e | vaultKey'
  · rw [Prog.run_bind_of_error hkey] at hrun
    cases hrun
    exact .inl ⟨h, e, rfl⟩
  rw [Prog.run_bind_of_ok hkey] at hrun
  obtain ⟨dek, hdek, hright⟩ := run_packDek_slot (ε := DownloaderError) hset.separate h.store
    hfound.stored hset.ideals h.slot
  have hdek' := run_onReadFiles (κ := ReadSide) (packDek chunk.packId) w₁
  rw [hpack, hdek, ← hpack] at hdek'
  rw [Prog.run_bind_of_ok hdek'] at hrun
  have hdownload := run_onReadFiles (κ := ReadSide) (downloadPack C net chunk.packId) w₁
  rcases hrunPack : (downloadPack C net (c.packId C)).run w₁.files with ⟨downloaded, files⟩
  obtain ⟨hfetched, hsource⟩ :=
    fetched_downloadPack hset.ideal net hset.separate h.store hfound.stored hrunPack
  have h₂ := h.fetched hfetched
  rw [hpack, hrunPack, ← hpack] at hdownload
  rcases downloaded with e | source
  · rw [Prog.run_bind_of_error hdownload] at hrun
    cases hrun
    exact .inl ⟨h₂, e, rfl⟩
  rw [Prog.run_bind_of_ok hdownload] at hrun
  have hspool : (onReadFiles (readSpoolFile source.localPath) : ReadProg P ReadSide Bytes).run
      { w₁ with files } =
        ((spoolFile source.localPath files).elim (.error .io) .ok, { w₁ with files }) := by
    rw [run_onReadFiles, readSpoolFile, Prog.run_query_bind]
    cases spoolFile source.localPath files <;> rfl
  rcases hfile : spoolFile source.localPath files with _ | packBytes
  · rw [hfile] at hspool
    rw [Prog.run_bind_of_error hspool] at hrun
    cases hrun
    exact .inl ⟨h₂, _, rfl⟩
  have hrecord := (hsource source rfl).isRecord hset.separate hfetched.store hfound.stored hfile
  rw [hfile] at hspool
  rw [Prog.run_bind_of_ok hspool] at hrun
  rcases hdecrypt : decryptChunkRecord C packBytes (fileChunkOf chunk) vaultKey' dek with
    e | plaintext
  · rw [hdecrypt] at hrun
    cases hrun
    exact .inl ⟨h₂, e, rfl⟩
  obtain rfl : plaintext = c.plaintext := by
    rw [hlocation] at hdecrypt
    exact decryptChunkRecord_right h.store hfound.stored hset.ideal hrecord number offset vaultKey'
      hright hdecrypt
  rw [hdecrypt, Prog.ofExcept_ok, Prog.ret_bind] at hrun
  rcases hput : (onReadCache (cacheChunk C place chunk.revisionId (fileChunkOf chunk)
    c.plaintext)).run { w₁ with files } with ⟨put, w₂⟩
  refine .inr ⟨_, put, h₂, ?_⟩
  rcases put with e | u
  · rw [Prog.run_bind_of_error hput] at hrun
    cases hrun
    exact ⟨hput, rfl⟩
  · rw [Prog.run_bind_of_ok hput] at hrun
    cases hrun
    exact ⟨hput, rfl⟩

/-- A read by identifier whose lookup numbers the chunk as its revision does. -/
theorem reading_readCachedChunkById (hset : ReadSetting C known n all clients)
    {places : Db.ChunkLookupRecord → CachePlace}
    (hplaces : ∀ chunk, (places chunk).rootDir = rootDir)
    (h : Reading C known cur vaultKey keys all chunks rootDir db w)
    (hnumber : ∀ chunk, Db.chunkLookup chunkId db = some chunk → Numbered chunkId db chunk)
    {out : Except DownloaderError (Option Bytes)}
    (hrun : (readCachedChunkById C places net chunkId).run w = (out, w')) :
    Reading C known cur vaultKey keys all chunks rootDir db w' ∧
      ∀ bytes, out = .ok (some bytes) →
        ∃ c ∈ chunks, (c.chunkId C).bytes = chunkId ∧ bytes = c.plaintext := by
  have hlookup : (onReadFiles (Db.getChunkLookupByChunkId chunkId) :
      ReadProg P ReadSide (Option Db.ChunkLookupRecord)).run w =
        (.ok (Db.chunkLookup chunkId w.files.db), w) := rfl
  rw [readCachedChunkById, Prog.run_bind_of_ok hlookup, h.tables] at hrun
  rcases hchunk : Db.chunkLookup chunkId db with _ | chunk
  · rw [hchunk] at hrun
    cases hrun
    exact ⟨h, fun bytes hbytes => by cases hbytes⟩
  rw [hchunk] at hrun
  dsimp only at hrun
  have hroot := hplaces chunk
  have hstore := h.store
  have htables := h.tables
  subst hroot
  obtain ⟨c, hfound⟩ : ∃ c, FoundChunk C chunks db chunkId chunk c := by
    rw [← htables] at hchunk ⊢
    exact foundChunk_of_chunkLookup hset.separate hstore.tables hstore.revisions hstore.subset
      hchunk
  have hpiece : PieceAt C chunks db chunk.revisionId chunk.chunkIndex c.plaintext := by
    have hnumber := hnumber chunk hchunk
    rw [← htables] at hfound hnumber ⊢
    exact hfound.pieceAt hset.separate hstore.revisions hstore.subset hnumber
  rcases hget : (onReadCache (cachedChunk C (places chunk) chunk.revisionId
    chunk.chunkIndex)).run w with ⟨got, w₁⟩
  obtain ⟨h₁, hcached⟩ := reading_cachedChunk h hget
  rcases got with e | cached
  · rw [Prog.run_bind_of_error hget] at hrun
    cases hrun
    exact ⟨h₁, fun bytes hbytes => by cases hbytes⟩
  rw [Prog.run_bind_of_ok hget] at hrun
  rcases cached with _ | cached
  · dsimp only at hrun
    rcases fetchedById_of_run hset h₁ hfound hrun with ⟨h₂, e, rfl⟩ | ⟨w₂, put, h₂, hput, rfl⟩
    · exact ⟨h₂, fun bytes hbytes => by cases hbytes⟩
    · have hpiece' : PieceAt C chunks db chunk.revisionId (fileChunkOf chunk).chunkIndex
          c.plaintext := hpiece
      refine ⟨reading_cacheChunk hset.ideal h₂ hpiece' hput, fun bytes hbytes => ?_⟩
      rcases put with e | u
      · cases hbytes
      · cases hbytes
        exact ⟨c, hfound.stored, hfound.chunkId, rfl⟩
  · cases hrun
    refine ⟨h₁, fun bytes hbytes => ⟨c, hfound.stored, hfound.chunkId, ?_⟩⟩
    cases hbytes
    exact (hcached cached rfl).unique hset.separate hstore.subset hpiece

end ById

end OmniDrive
