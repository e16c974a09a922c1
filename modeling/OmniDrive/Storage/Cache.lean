import Mathlib.Data.Prod.Lex
import Mathlib.Data.String.Basic
import OmniDrive.Crypto.Chunks
import OmniDrive.Library.Eviction
import OmniDrive.Library.GuardedRuns
import OmniDrive.Library.Tables
import OmniDrive.Vault.KeyStore

/-!
# The chunk cache

Decrypted chunks are cached on disk under a key of the vault, with an index in the database. After
every insertion the least recently used entries are evicted until the cache fits its budget; the
new entry itself is protected.
-/

namespace OmniDrive

open StatementProgram Tables ByteFields Eviction GuardedRuns

/-- A row of `cache_entries`. -/
structure CacheEntryRecord where
  cacheKey : String
  inodeId : ℤ
  revisionId : ℤ
  chunkIndex : ℤ
  packId : String
  filePath : String
  cachePath : String
  size : ℤ
  createdAt : ℤ
  lastAccessedAt : ℤ
  accessCount : ℤ
  isPrefetched : Bool
  deriving DecidableEq, Repr

/-- The table `cache_entries` with its primary key. -/
structure CacheIndex where
  entries : List CacheEntryRecord
  keys_nodup : (entries.map (·.cacheKey)).Nodup

namespace CacheIndex

def empty : CacheIndex := ⟨[], List.nodup_nil⟩

def getCacheEntry (cacheKey : String) (index : CacheIndex) : Option CacheEntryRecord :=
  index.entries.find? (·.cacheKey = cacheKey)

/-- Insert an entry, or renew the one with its key. -/
def upsertCacheEntry (entry : CacheEntryRecord) (index : CacheIndex) : CacheIndex where
  entries := upsert (·.cacheKey)
    (fun old => { entry with createdAt := old.createdAt, accessCount := old.accessCount + 1 })
    entry index.entries
  keys_nodup := nodup_upsert index.keys_nodup fun _ _ _ => rfl

def touchCacheEntry (cacheKey : String) (now : ℤ) (index : CacheIndex) : CacheIndex where
  entries := updateWhere (·.cacheKey = cacheKey)
    (fun e => { e with lastAccessedAt := now, accessCount := e.accessCount + 1 }) index.entries
  keys_nodup := by
    rw [map_updateWhere]
    · exact index.keys_nodup
    · exact fun _ => rfl

def deleteCacheEntry (cacheKey : String) (index : CacheIndex) : CacheIndex where
  entries := deleteWhere (·.cacheKey = cacheKey) index.entries
  keys_nodup := index.keys_nodup.sublist (List.filter_sublist.map _)

/-- The order in which entries are evicted. -/
def lruKey (e : CacheEntryRecord) : Lex (ℤ × Lex (ℤ × String)) :=
  toLex (e.lastAccessedAt, toLex (e.createdAt, e.cacheKey))

/-- The entries, the least recently used ones first. -/
def byLru (index : CacheIndex) : List CacheEntryRecord := orderBy lruKey index.entries

def listCacheEntriesByLru (n : ℤ) (index : CacheIndex) : List CacheEntryRecord :=
  limit n index.byLru

def totalCacheSize (index : CacheIndex) : ℤ := (index.entries.map (·.size)).sum

end CacheIndex

/-- The index and the files of the cache. -/
structure CacheDisk where
  index : CacheIndex
  files : String → Option Bytes := fun _ => none

/-- The vault, the cache and the clock, in seconds. -/
structure CacheWorld (P : Primitives) where
  vault : VaultWorld P
  disk : CacheDisk
  now : ℤ := 0

inductive CacheError where
  | io
  | db
  | vault (err : VaultError)
  | crypto (reason : String)
  | numericOverflow (context : String)
  deriving DecidableEq, Repr

/-- Which operations on the files of the cache go through, apart from a file that is missing. -/
structure CacheIo where
  createsDir : String → Bool
  writes : String → Bool
  reads : String → Bool
  removes : String → Bool

variable {P : Primitives} {α : Type}

abbrev CacheProg (P : Primitives) (α : Type) := Prog (CacheWorld P) CacheError α

/-- Run the key store on the vault of the world. -/
def onCacheVault (p : VaultProg P α) : CacheProg P α :=
  (p.mapError .vault).zoom (·.vault) fun vault w => { w with vault }

/-- An operation on the index and the files of the cache. -/
def onDisk (f : CacheDisk → Except CacheError α × CacheDisk) : CacheProg P α :=
  .stmt (fun w => { w with disk := (f w.disk).2 }) fun w => Prog.ofExcept (f w.disk).1

/-- A statement on the index. -/
def writeIndex (f : CacheIndex → CacheIndex) : CacheProg P Unit :=
  Prog.exec fun w => { w with disk.index := f w.disk.index }

/-! ## The payloads -/

def localCacheKeyInfo : String := "omnidrive-local-cache-v1"

namespace VaultKeyStore

def deriveCacheKey : VaultProg P P.Key := do
  let masterKey ← requireMasterKey
  pure (P.hkdfExpand masterKey localCacheKeyInfo)

end VaultKeyStore

namespace CacheManager

variable (C : ChunkPrimitives P) (io : CacheIo)

def cacheNonceLen : ℕ := 12

/-- The length of an AES-GCM tag. -/
def gcmTagLen : ℕ := 16

def cacheKey (revisionId chunkIndex : ℤ) : String := s!"{revisionId}:{chunkIndex}"

/-- The directory of an entry, by the first digits of the digest of its key. -/
def cacheDirForKey (rootDir key : String) : String :=
  let digest := (C.sha256Hex key.toUTF8.toList).toList
  rootDir ++ "/" ++ String.ofList (digest.take 2) ++ "/" ++ String.ofList ((digest.drop 2).take 2)

def cachePathForKey (rootDir key : String) : String :=
  cacheDirForKey C rootDir key ++ "/" ++ key ++ ".bin"

def encryptCachePayload (key : String) (plaintext : Bytes) : CacheProg P Bytes := do
  let material ← onCacheVault VaultKeyStore.deriveCacheKey
  let nonceDraw ← onCacheVault (draw id)
  let nonce := C.randomNonce nonceDraw
  let (ciphertext, tag) := C.gcmEncrypt material nonce key.toUTF8.toList plaintext
  pure (nonce.bytes ++ (ciphertext ++ tag.bytes))

def decryptCachePayload (key : String) (payload : Bytes) : CacheProg P Bytes := do
  if payload.length ≤ cacheNonceLen then .fail (.crypto "cache payload too short")
  else
    let material ← onCacheVault VaultKeyStore.deriveCacheKey
    let sealedBytes := payload.drop cacheNonceLen
    let cut := sealedBytes.length - gcmTagLen
    let opened := do
      let nonce ← FixedBytes.tryFrom 12 (payload.take cacheNonceLen)
      let tag ← FixedBytes.tryFrom 16 (sealedBytes.drop cut)
      C.gcmDecrypt material nonce key.toUTF8.toList (sealedBytes.take cut) tag
    Prog.ofOption (.crypto "cache decryption failed") opened

/-- `i64::try_from` of a length. -/
def cacheI64 (value : ℕ) (context : String) : Except CacheError ℤ :=
  if value < 2 ^ 63 then .ok value else .error (.numericOverflow context)

/-! ## Eviction -/

/-- Remove the file of an entry and then its row; a file that is not there counts as removed. -/
def deleteEntry (key path : String) (disk : CacheDisk) : Except CacheError Unit × CacheDisk :=
  if (disk.files path).isSome ∧ io.removes path = false then (.error .io, disk)
  else
    (.ok (), { index := disk.index.deleteCacheEntry key
               files := Function.update disk.files path none })

/-- The cache in the middle of an eviction, with the size that the loop keeps track of. -/
structure EvictState where
  disk : CacheDisk
  totalSize : ℤ
  removedAny : Bool := false

/-- The loop over one page of candidates. -/
def evictPage (maxBytes : ℤ) (protectedKey : Option String) :
    List CacheEntryRecord → EvictState → Except CacheError Unit × EvictState
  | [], s => (.ok (), s)
  | entry :: rest, s =>
    if protectedKey = some entry.cacheKey then evictPage maxBytes protectedKey rest s
    else match deleteEntry io entry.cacheKey entry.cachePath s.disk with
      | (.error e, disk) => (.error e, { s with disk })
      | (.ok (), disk) =>
        let s := { disk, totalSize := s.totalSize - entry.size, removedAny := true }
        if s.totalSize ≤ maxBytes then (.ok (), s) else evictPage maxBytes protectedKey rest s

/-! ### The loop over the pages ends -/

theorem length_deleteCacheEntry_le (key : String) (index : CacheIndex) :
    (index.deleteCacheEntry key).entries.length ≤ index.entries.length :=
  List.length_filter_le _ _

/-- Deleting an entry of the index makes it shorter. -/
theorem length_deleteCacheEntry_lt {index : CacheIndex} {entry : CacheEntryRecord}
    (h : entry ∈ index.entries) :
    (index.deleteCacheEntry entry.cacheKey).entries.length < index.entries.length := by
  apply List.length_filter_lt_length_iff_exists.mpr
  exact ⟨entry, h, by simp⟩

/-- A deletion that fails leaves the cache as it was. -/
theorem eq_of_deleteEntry_error {key path : String} {disk disk' : CacheDisk} {e : CacheError}
    (h : deleteEntry io key path disk = (.error e, disk')) : disk' = disk := by
  unfold deleteEntry at h
  split at h
  · exact (Prod.mk.inj h).2.symm
  · cases h

/-- One that succeeds takes the row and the file away. -/
theorem eq_of_deleteEntry_ok {key path : String} {disk disk' : CacheDisk}
    (h : deleteEntry io key path disk = (.ok (), disk')) :
    disk' = { index := disk.index.deleteCacheEntry key
              files := Function.update disk.files path none } := by
  unfold deleteEntry at h
  split at h
  · cases h
  · exact (Prod.mk.inj h).2.symm

/-- A page makes the index no longer. -/
theorem length_evictPage_le (maxBytes : ℤ) (protectedKey : Option String)
    (candidates : List CacheEntryRecord) (s : EvictState) :
    (evictPage io maxBytes protectedKey candidates s).2.disk.index.entries.length ≤
      s.disk.index.entries.length := by
  fun_induction evictPage io maxBytes protectedKey candidates s with
  | case1 s => exact le_rfl
  | case2 entry rest s hkept ih => exact ih
  | case3 entry rest s hkept e disk hdelete => rw [eq_of_deleteEntry_error io hdelete]
  | case4 entry rest s hkept disk hdelete s' hfits =>
    show disk.index.entries.length ≤ _
    rw [eq_of_deleteEntry_ok io hdelete]
    exact length_deleteCacheEntry_le _ _
  | case5 entry rest s hkept disk hdelete s' hfits ih =>
    have hdisk : disk.index.entries.length ≤ s.disk.index.entries.length := by
      rw [eq_of_deleteEntry_ok io hdelete]
      exact length_deleteCacheEntry_le _ _
    exact ih.trans hdisk

/-- A page that removes an entry makes it shorter. -/
theorem length_evictPage_lt (maxBytes : ℤ) (protectedKey : Option String)
    (candidates : List CacheEntryRecord) (s : EvictState)
    (hlisted : ∀ entry ∈ candidates, entry ∈ s.disk.index.entries) (hnone : s.removedAny = false)
    (hremoved : (evictPage io maxBytes protectedKey candidates s).2.removedAny = true) :
    (evictPage io maxBytes protectedKey candidates s).2.disk.index.entries.length <
      s.disk.index.entries.length := by
  fun_induction evictPage io maxBytes protectedKey candidates s with
  | case1 s => rw [hnone] at hremoved; cases hremoved
  | case2 entry rest s hkept ih =>
    exact ih (fun e he => hlisted e (List.mem_cons_of_mem _ he)) hnone hremoved
  | case3 entry rest s hkept e disk hdelete => rw [hnone] at hremoved; cases hremoved
  | case4 entry rest s hkept disk hdelete s' hfits =>
    show disk.index.entries.length < _
    rw [eq_of_deleteEntry_ok io hdelete]
    exact length_deleteCacheEntry_lt (hlisted entry List.mem_cons_self)
  | case5 entry rest s hkept disk hdelete s' hfits ih =>
    have hdisk : disk.index.entries.length < s.disk.index.entries.length := by
      rw [eq_of_deleteEntry_ok io hdelete]
      exact length_deleteCacheEntry_lt (hlisted entry List.mem_cons_self)
    exact (length_evictPage_le io maxBytes protectedKey rest s').trans_lt hdisk

/-- The loop over the pages of candidates; every round but the last removes an entry. -/
def evictLoop (maxBytes : ℤ) (protectedKey : Option String) (disk : CacheDisk) (totalSize : ℤ) :
    Except CacheError Unit × CacheDisk :=
  if maxBytes < totalSize then
    let candidates := disk.index.listCacheEntriesByLru 64
    if candidates.isEmpty then (.ok (), disk)
    else
      let page := evictPage io maxBytes protectedKey candidates { disk, totalSize }
      match page.1 with
      | .error e => (.error e, page.2.disk)
      | .ok () =>
        if page.2.removedAny = true then
          evictLoop maxBytes protectedKey page.2.disk page.2.totalSize
        else (.ok (), page.2.disk)
  else (.ok (), disk)
termination_by disk.index.entries.length
decreasing_by
  apply length_evictPage_lt io maxBytes protectedKey _ { disk, totalSize }
  · intro entry hentry
    exact (mem_orderBy _ _ _).mp (mem_of_mem_limit hentry)
  · rfl
  · assumption

/-- Evict until the cache fits its budget; `SUM` is refused where it leaves the range of a
column. -/
def evictIfNeeded (maxBytes : ℕ) (protectedKey : Option String) (disk : CacheDisk) :
    Except CacheError Unit × CacheDisk :=
  match cacheI64 maxBytes "cache byte budget" with
  | .error e => (.error e, disk)
  | .ok budget =>
    let totalSize := disk.index.totalCacheSize
    if -2 ^ 63 ≤ totalSize ∧ totalSize < 2 ^ 63 then
      if totalSize ≤ budget then (.ok (), disk)
      else evictLoop io budget protectedKey disk totalSize
    else (.error .db, disk)

/-! ## Reading and writing the cache -/

/-- Drop an entry that cannot be used. -/
def dropEntry (entry : CacheEntryRecord) : CacheProg P Unit :=
  onDisk (deleteEntry io entry.cacheKey entry.cachePath)

def getChunk (key : String) : CacheProg P (Option Bytes) := do
  match ← Prog.query fun w => w.disk.index.getCacheEntry key with
  | none => pure none
  | some entry =>
    match ← Prog.query fun w => w.disk.files entry.cachePath with
    | none =>
      writeIndex (·.deleteCacheEntry key)
      pure none
    | some bytes =>
      if io.reads entry.cachePath = false then .fail .io
      else match ← (decryptCachePayload C key bytes).attempt with
        | .error (_ : CacheError) =>
          dropEntry io entry
          pure none
        | .ok plaintext =>
          let byteLen ← Prog.ofExcept (cacheI64 plaintext.length "cache plaintext length")
          if byteLen ≠ entry.size then
            dropEntry io entry
            pure none
          else
            let now ← Prog.query (·.now)
            writeIndex (·.touchCacheEntry key now)
            pure (some plaintext)

/-- The row of a chunk that is written to the cache. -/
def newEntry (rootDir : String) (inodeId revisionId chunkIndex : ℤ) (packId filePath : String)
    (size : ℤ) (isPrefetched : Bool) (now : ℤ) : CacheEntryRecord :=
  let key := cacheKey revisionId chunkIndex
  { cacheKey := key
    inodeId
    revisionId
    chunkIndex
    packId
    filePath
    cachePath := cachePathForKey C rootDir key
    size
    createdAt := now
    lastAccessedAt := now
    accessCount := 1
    isPrefetched }

/-- Write the file of an entry. -/
def writeCacheFile (path : String) (payload : Bytes) : CacheProg P Unit := do
  if io.writes path = false then .fail .io
  else Prog.exec fun w => { w with disk.files := Function.update w.disk.files path (some payload) }

def putChunk (rootDir : String) (maxBytes : ℕ) (inodeId revisionId chunkIndex : ℤ)
    (packId filePath : String) (bytes : Bytes) (isPrefetched : Bool) : CacheProg P Unit := do
  let key := cacheKey revisionId chunkIndex
  let path := cachePathForKey C rootDir key
  if io.createsDir (cacheDirForKey C rootDir key) = false then .fail .io
  else
    let payload ← encryptCachePayload C key bytes
    writeCacheFile io path payload
    let size ← Prog.ofExcept (cacheI64 bytes.length "cache write length")
    let now ← Prog.query (·.now)
    writeIndex (·.upsertCacheEntry
      (newEntry C rootDir inodeId revisionId chunkIndex packId filePath size isPrefetched now))
    onDisk (evictIfNeeded io maxBytes (some key))

end CacheManager

end OmniDrive
