import OmniDrive.Storage.ReadRuns

/-!
# What serving a chunk leaves in the cache

A chunk that is read by its identifier goes into the cache under the number that the lookup gives
it, which counts only the references to that chunk. Whatever the revision has at that number, the
next read of it returns the served chunk.
-/

namespace OmniDrive

open StatementProgram GuardedRuns Tables ByteFields Packer Downloader CacheManager

variable {P : Primitives} {C : ChunkPrimitives P} {known : Bytes → Prop} {cur vaultKey : P.Key}
  {keys : UnlockedVaultKeys P} {all chunks : List StoredChunk}

/-- A range within one chunk meets only that chunk. -/
theorem filter_locationsFrom {cs : List StoredChunk} {k : ℕ} {c : StoredChunk}
    (hk : cs[k]? = some c) (index : ℕ) (offset : ℤ) {length : ℕ} (hpos : 0 < length)
    (hle : length ≤ c.plaintext.length) :
    ((locationsFrom C index offset cs).filter fun l =>
      l.fileOffset + l.size > offset + plainOffset cs k &&
        l.fileOffset < offset + plainOffset cs k + length) =
      [c.locationAt C (index + k) (offset + plainOffset cs k)] := by
  induction cs generalizing index offset k with
  | nil => cases hk
  | cons first rest ih =>
    rw [locationsFrom]
    cases k with
    | zero =>
      obtain rfl := Option.some.inj hk
      have hzero : plainOffset (first :: rest) 0 = 0 := rfl
      have hsize : (first.locationAt C index offset).size = first.plaintext.length := rfl
      have hstart : (first.locationAt C index offset).fileOffset = offset := rfl
      rw [hzero, List.filter_cons_of_pos, List.filter_eq_nil_iff.mpr]
      · simp
      · intro l hl
        obtain ⟨k, c', -, rfl⟩ := mem_locationsFrom hl
        have hlater : (c'.locationAt C (index + 1 + k) (offset + first.plaintext.length +
            plainOffset rest k)).fileOffset =
              offset + first.plaintext.length + plainOffset rest k := rfl
        rw [hlater, Bool.and_eq_true, decide_eq_true_eq, decide_eq_true_eq]
        omega
      · rw [hsize, hstart, Bool.and_eq_true, decide_eq_true_eq, decide_eq_true_eq]
        omega
    | succ k =>
      have hoffset : offset + plainOffset (first :: rest) (k + 1) =
          offset + first.plaintext.length + plainOffset rest k := by
        rw [plainOffset_succ]
        push_cast
        omega
      have hindex : index + (k + 1) = index + 1 + k := by omega
      rw [hoffset, List.filter_cons_of_neg, ih hk, hindex]
      have hsize : (first.locationAt C index offset).size = first.plaintext.length := rfl
      have hstart : (first.locationAt C index offset).fileOffset = offset := rfl
      rw [hsize, hstart, Bool.and_eq_true, decide_eq_true_eq, decide_eq_true_eq]
      omega

/-- A read that begins with its only chunk returns what was loaded of it. -/
theorem run_appendChunks_one {net : Network} {sources : ChunkSources P ReadSide} {revisionId : ℤ}
    {readKey : P.Key} {location : FileChunkLocation} {w w' : ReadWorld P ReadSide} {bytes : Bytes}
    {offset length : ℕ} {downloaded : DownloadedPacks}
    (hload : (loadPlaintextChunk C net sources revisionId readKey [] location).run w =
      (.ok (bytes, downloaded), w'))
    (hoffset : location.fileOffset = offset) (hfits : offset + bytes.length < 2 ^ 64) :
    (appendChunks C net sources revisionId offset (offset + length) length readKey [] []
      [location]).run w = (.ok (bytes.take length), w') := by
  have hstart : toU64 location.fileOffset "file offset" = .ok offset := by
    rw [hoffset, toU64, if_pos (Int.natCast_nonneg offset), Int.toNat_natCast]
  have hend : checkedAdd offset bytes.length "chunk end" = .ok (offset + bytes.length) :=
    if_pos hfits
  rw [appendChunks, Prog.run_bind_of_ok hload]
  dsimp only
  rw [hstart, Prog.ofExcept_ok, Prog.ret_bind, hend, Prog.ofExcept_ok, Prog.ret_bind]
  by_cases hempty : max offset offset ≥ min (offset + length) (offset + bytes.length)
  · have hnone : bytes.take length = [] := by
      rw [← List.length_eq_zero_iff, List.length_take]
      omega
    rw [if_pos hempty, hnone]
    rfl
  · have hslice : slice (max offset offset - offset)
        (min (offset + length) (offset + bytes.length) - offset) bytes = bytes.take length := by
      have hfront : max offset offset - offset = 0 := by omega
      have hback : min (offset + length) (offset + bytes.length) - offset =
          min length bytes.length := by omega
      rw [hfront, hback, slice, List.drop_zero, ← List.take_take, List.take_length]
    rw [if_neg hempty, hslice, List.nil_append]
    split <;> rfl

/-- The store after a chunk was served that was not in the cache. -/
structure Planted (C : ChunkPrimitives P) (known : Bytes → Prop) (cur vaultKey : P.Key)
    (keys : UnlockedVaultKeys P) (all chunks : List StoredChunk) (rootDir : String) (db : FileDb)
    (chunk : Db.ChunkLookupRecord) (bytes : Bytes) (w : ReadWorld P ReadSide) : Prop where
  store : StoreInv C known cur vaultKey all chunks (w.files.opened keys)
  isOpen : w.files.vault.inner = some keys
  tables : w.files.db = db
  filed : Filed C keys rootDir chunk.revisionId chunk.chunkIndex bytes w.cache.disk

section Serve

variable {n : ℕ} {clients : Bytes → Option PeerClient} {db : FileDb} {w w' : ReadWorld P ReadSide}
  {net : Network} {rootDir : String} {chunkId bytes : Bytes} {chunk : Db.ChunkLookupRecord}

/-- A chunk that is served from its pack stays in the cache under the number of its lookup. -/
theorem planted_of_serve (hset : ReadSetting C known n all clients)
    {places : Db.ChunkLookupRecord → CachePlace} (hplaces : (places chunk).rootDir = rootDir)
    (h : Reading C known cur vaultKey keys all chunks rootDir db w)
    (hlookup : Db.chunkLookup chunkId db = some chunk)
    (hmiss : ((onReadCache (cachedChunk C (places chunk) chunk.revisionId
      chunk.chunkIndex)).run w).1 = .ok none)
    (hrun : (readCachedChunkById C places net chunkId).run w = (.ok (some bytes), w')) :
    ∃ c, FoundChunk C chunks db chunkId chunk c ∧ bytes = c.plaintext ∧
      Planted C known cur vaultKey keys all chunks rootDir db chunk bytes w' := by
  have hfind : (onReadFiles (Db.getChunkLookupByChunkId chunkId) :
      ReadProg P ReadSide (Option Db.ChunkLookupRecord)).run w =
        (.ok (Db.chunkLookup chunkId w.files.db), w) := rfl
  rw [readCachedChunkById, Prog.run_bind_of_ok hfind, h.tables, hlookup] at hrun
  dsimp only at hrun
  subst hplaces
  have hstore := h.store
  have htables := h.tables
  obtain ⟨c, hfound⟩ : ∃ c, FoundChunk C chunks db chunkId chunk c := by
    rw [← htables] at hlookup ⊢
    exact foundChunk_of_chunkLookup hset.separate hstore.tables hstore.revisions hstore.subset
      hlookup
  rcases hget : (onReadCache (cachedChunk C (places chunk) chunk.revisionId
    chunk.chunkIndex)).run w with ⟨got, w₁⟩
  obtain ⟨h₁, -⟩ := reading_cachedChunk h hget
  rw [hget] at hmiss
  obtain rfl : got = .ok none := hmiss
  rw [Prog.run_bind_of_ok hget] at hrun
  dsimp only at hrun
  rcases fetchedById_of_run hset h₁ hfound hrun with ⟨-, e, he⟩ | ⟨w₂, put, h₂, hput, hout⟩
  · cases he
  rcases put with e | u
  · cases hout
  obtain rfl : bytes = c.plaintext := Option.some.inj (Except.ok.inj hout)
  refine ⟨c, hfound, rfl, ?_⟩
  rw [run_onReadCache'] at hput
  rcases hinsert : (cacheChunk C (places chunk) chunk.revisionId (fileChunkOf chunk)
    c.plaintext).run (readCache w₂) with ⟨r, cache⟩
  obtain ⟨⟨disk, draws, hworld, hdraws, -⟩, hfiled⟩ := inserted_of_run hset.ideal
    h₂.slot (h₂.holds.mono fun _ _ _ _ => trivial) trivial hinsert
  rw [hinsert] at hput
  obtain ⟨hok, rfl⟩ := Prod.mk.inj hput
  rcases r with e | u
  · cases hok
  obtain ⟨hopen, hthere⟩ := hfiled rfl
  rw [hworld] at hthere ⊢
  exact ⟨h₂.store.drawn hdraws, hopen, h₂.tables, hthere⟩

variable {place : CachePlace} (hreads : place.io.reads
  (cachePathForKey C rootDir (cacheKey chunk.revisionId chunk.chunkIndex)) = true)
include hreads

/-- Whatever chunk of the revision has the number, it is loaded from there. -/
theorem Planted.load
    (h : Planted C known cur vaultKey keys all chunks rootDir db chunk bytes w)
    {location : FileChunkLocation} (hnumber : location.chunkIndex = chunk.chunkIndex)
    (readKey : P.Key) (downloaded : DownloadedPacks) : ∃ w',
      (loadPlaintextChunk C net (peerSources C place clients) chunk.revisionId readKey downloaded
        location).run w = (.ok (bytes, downloaded), w') := by
  have hopen : (readCache w).vault.inner = some keys := h.isOpen
  obtain ⟨c, hget⟩ := run_getChunk_of_filed hopen h.filed hreads
  have hcached : ((peerSources C place clients).getChunk chunk.revisionId
      location.chunkIndex).run w = (.ok (some bytes), withReadCache c w) := by
    have hrun : (cachedChunk C place chunk.revisionId chunk.chunkIndex).run (readCache w) =
        (.ok (some bytes), c) := hget
    rw [hnumber]
    refine (run_onReadCache' _ w).trans ?_
    rw [hrun]
    rfl
  rw [loadPlaintextChunk, Prog.run_bind_of_ok hcached]
  exact ⟨_, rfl⟩

/-- A read of a range within that chunk returns these bytes. -/
theorem Planted.readRange (separate : Separate C all)
    (h : Planted C known cur vaultKey keys all chunks rootDir db chunk bytes w)
    (hrow : ∃ r ∈ db.fileRevisions, r.revisionId = chunk.revisionId ∧ r.inodeId = chunk.inodeId)
    {cs : List StoredChunk} (hcs : ∀ c ∈ cs, c ∈ chunks)
    (hrefs : RefsFrom C 0 cs (refRows chunk.revisionId db)) {k : ℕ} {c : StoredChunk}
    (hk : cs[k]? = some c) (hnumber : chunk.chunkIndex = k)
    (hfits : plainOffset cs k + c.plaintext.length < 2 ^ 63)
    {length : ℕ} (hpos : 0 < length) (hle : length ≤ c.plaintext.length) : ∃ w',
      (Downloader.readRange C net (peerSources C place clients) chunk.inodeId chunk.revisionId
        (plainOffset cs k) length).run w = (.ok (bytes.take length), w') := by
  obtain ⟨r, hr⟩ : ∃ r, Db.revisionOf chunk.inodeId chunk.revisionId w.files.db = some r := by
    obtain ⟨r, hr, hid, hinode⟩ := hrow
    rw [h.tables]
    exact Option.isSome_iff_exists.mp (List.find?_isSome.mpr ⟨r, hr, by simp [hid, hinode]⟩)
  have hlocations : Db.revisionLocationsInRange chunk.inodeId chunk.revisionId
      (plainOffset cs k : ℕ) (plainOffset cs k + length : ℕ) w.files.db =
        [c.locationAt C k (plainOffset cs k)] := by
    have hone := filter_locationsFrom (C := C) hk 0 0 hpos hle
    rw [Db.revisionLocationsInRange, (revisionRefs_eq hr).2, h.tables,
      locateAll_eq separate (h.tables ▸ h.store.tables) h.store.subset hcs hrefs]
    simpa using hone
  have hkey : (onReadFiles (onVault .vault VaultKeyStore.vaultKeyForV1Read) :
      ReadProg P ReadSide P.Key).run w = (.ok vaultKey, w) := by
    have hv1 := h.store.files.vault.v1
    rw [FileWorld.opened_of_inner h.isOpen] at hv1
    rw [run_onReadFiles, run_onVault, hv1]
    rfl
  obtain ⟨w', hload⟩ : ∃ w', (loadPlaintextChunk C net (peerSources C place clients)
      chunk.revisionId vaultKey [] (c.locationAt C k (plainOffset cs k))).run w =
        (.ok (bytes, []), w') := h.load hreads hnumber.symm vaultKey []
  refine ⟨w', ?_⟩
  have hrevision : (onReadFiles (Db.getFileRevision chunk.inodeId chunk.revisionId) :
      ReadProg P ReadSide (Option FileRevisionRecord)).run w = (.ok (some r), w) :=
    congrArg (fun found => (Except.ok found, w)) hr
  have hsum : checkedAdd (plainOffset cs k) length "range end" = .ok (plainOffset cs k + length) :=
    if_pos (by omega)
  have hstart64 : OmniDrive.toI64 (plainOffset cs k) "range start" = .ok (plainOffset cs k : ℕ) :=
    if_pos (by omega)
  have hend64 : OmniDrive.toI64 (plainOffset cs k + length) "range end" =
      .ok (plainOffset cs k + length : ℕ) := if_pos (by omega)
  have hfound : (onReadFiles (Db.getRevisionChunkLocationsInRange chunk.inodeId chunk.revisionId
      (plainOffset cs k : ℕ) (plainOffset cs k + length : ℕ)) :
        ReadProg P ReadSide (List FileChunkLocation)).run w =
          (.ok [c.locationAt C k (plainOffset cs k)], w) :=
    congrArg (fun found => (Except.ok found, w)) hlocations
  rw [Downloader.readRange, Prog.run_bind_of_ok hrevision, Prog.ofOption_some, Prog.ret_bind,
    if_neg (by omega), hsum, Prog.ofExcept_ok, Prog.ret_bind, hstart64, Prog.ofExcept_ok,
    Prog.ret_bind, hend64, Prog.ofExcept_ok, Prog.ret_bind, Prog.run_bind_of_ok hfound,
    if_neg (by simp), Prog.run_bind_of_ok hkey,
    Prog.run_bind_of_ok (run_appendChunks_one hload rfl (by have := h.filed.fits; omega))]
  have htake : (bytes.take length).take length = bytes.take length := by
    rw [List.take_take, Nat.min_self]
  exact congrArg (fun read => (Except.ok read, w')) htake

end Serve

def secondChunkId : Bytes := (chunkIdOf symbolicChunks (.random 2) [8]).bytes

/-- The store with the file of two chunks. -/
def storedFile : ReadRun symbolic :=
  (ReadOp.save 1 twoChunkFile).step symbolicChunks smallCache openKeys emptyReads

/-- What the lookup of the second chunk returns. -/
def secondLookup : Db.ChunkLookupRecord :=
  (Db.chunkLookup secondChunkId storedFile.world.files.db).get (by decide +kernel)

/-- What the file refers to first. -/
def firstRow : ChunkRefRecord :=
  ((refRows 1 storedFile.world.files.db)[0]?).get (by decide +kernel)

/-- The second chunk is asked for by its identifier. -/
def serveSecond : ReadProg symbolic ReadSide (Option Bytes) :=
  readCachedChunkById symbolicChunks
    (ReadRun.placeById smallCache aloneEnv storedFile.world.files.db) offline secondChunkId

/-- The first chunk is read, with the cache but without peers. -/
def readFirst : ReadProg symbolic ReadSide Bytes :=
  Downloader.readRange symbolicChunks offline (peerSources symbolicChunks
    (ReadRun.placeById smallCache aloneEnv storedFile.world.files.db secondLookup) fun _ => none)
    1 1 0 4

end OmniDrive
