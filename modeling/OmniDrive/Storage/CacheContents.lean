import OmniDrive.Library.Decimals
import OmniDrive.Storage.CacheBound

/-!
# What the cache holds

A cached chunk is looked up by its revision and its number. As long as whatever opens under a key is
a chunk of that revision with that number, every lookup that hits returns it.
-/

namespace OmniDrive

open StatementProgram Tables ByteFields

variable {P : Primitives} {C : ChunkPrimitives P} {α : Type}

namespace CacheManager

/-! ## Keys and paths -/

theorem toList_cacheKey (revisionId chunkIndex : ℤ) : (cacheKey revisionId chunkIndex).toList =
    (toString revisionId).toList ++ ':' :: (toString chunkIndex).toList := by
  simp [cacheKey, show (toString ":").toList = [':'] from rfl]

/-- A key determines the revision and the number. -/
theorem cacheKey_inj {revisionId revisionId' chunkIndex chunkIndex' : ℤ} :
    cacheKey revisionId chunkIndex = cacheKey revisionId' chunkIndex' ↔
      revisionId = revisionId' ∧ chunkIndex = chunkIndex' := by
  constructor
  · intro h
    have hlist := congrArg String.toList h
    rw [toList_cacheKey, toList_cacheKey, List.append_cons_inj_of_notMem
      (Decimals.notMem_toString (by decide) (by decide) _)
      (Decimals.notMem_toString (by decide) (by decide) _)] at hlist
    exact ⟨Decimals.toString_injective (String.toList_injective hlist.1),
      Decimals.toString_injective (String.toList_injective hlist.2.2)⟩
  · rintro ⟨rfl, rfl⟩
    rfl

/-- A key is the name of a file. -/
theorem notMem_cacheKey (revisionId chunkIndex : ℤ) :
    '/' ∉ (cacheKey revisionId chunkIndex).toList := by
  rw [toList_cacheKey, List.mem_append, List.mem_cons]
  rintro (h | h | h)
  · exact Decimals.notMem_toString (by decide) (by decide) _ h
  · exact absurd h (by decide)
  · exact Decimals.notMem_toString (by decide) (by decide) _ h

/-- The path of an entry ends with its key. -/
theorem toList_cachePathForKey (rootDir key : String) : (cachePathForKey C rootDir key).toList =
    (cacheDirForKey C rootDir key).toList ++ '/' :: (key.toList ++ ".bin".toList) := by
  simp [cachePathForKey]

/-- The path of an entry determines its key. -/
theorem cachePathForKey_inj {rootDir : String} {revisionId revisionId' chunkIndex chunkIndex' : ℤ} :
    cachePathForKey C rootDir (cacheKey revisionId chunkIndex) =
        cachePathForKey C rootDir (cacheKey revisionId' chunkIndex') ↔
      revisionId = revisionId' ∧ chunkIndex = chunkIndex' := by
  have hname : ∀ revisionId chunkIndex : ℤ,
      (cachePathForKey C rootDir (cacheKey revisionId chunkIndex)).toList.reverse.takeWhile
        (· ≠ '/') = ((cacheKey revisionId chunkIndex).toList ++ ".bin".toList).reverse := by
    intro revisionId chunkIndex
    rw [toList_cachePathForKey, List.reverse_append, List.reverse_cons, List.append_assoc,
      List.singleton_append, List.takeWhile_append_of_pos]
    · simp
    · intro c hc
      rw [List.mem_reverse, List.mem_append] at hc
      rw [decide_eq_true_eq]
      rintro rfl
      rcases hc with hc | hc
      · exact notMem_cacheKey _ _ hc
      · exact absurd hc (by decide)
  constructor
  · intro h
    have hnames := congrArg (fun path : String => path.toList.reverse.takeWhile (· ≠ '/')) h
    simp only [hname] at hnames
    have hlist := List.append_cancel_right (List.reverse_injective hnames)
    exact cacheKey_inj.mp (String.toList_injective hlist)
  · rintro ⟨rfl, rfl⟩
    rfl

/-! ## Payloads -/

/-- What a payload opens to, cut behind its nonce and before its tag. -/
def openSealed (C : ChunkPrimitives P) (material : P.Key) (key : String) (payload : Bytes) :
    Option Bytes := do
  let sealedBytes := payload.drop cacheNonceLen
  let cut := sealedBytes.length - gcmTagLen
  let nonce ← FixedBytes.tryFrom 12 (payload.take cacheNonceLen)
  let tag ← FixedBytes.tryFrom 16 (sealedBytes.drop cut)
  C.gcmDecrypt material nonce key.toUTF8.toList (sealedBytes.take cut) tag

/-- What opens of a payload under the key of an entry. -/
def openPayload (C : ChunkPrimitives P) (material : P.Key) (key : String) (payload : Bytes) :
    Option Bytes :=
  if payload.length ≤ cacheNonceLen then none else openSealed C material key payload

/-- The payload of a plaintext under a nonce. -/
def sealPayload (C : ChunkPrimitives P) (material : P.Key) (key : String) (nonce : FixedBytes 12)
    (plaintext : Bytes) : Bytes :=
  nonce.bytes ++ ((C.gcmEncrypt material nonce key.toUTF8.toList plaintext).1 ++
    (C.gcmEncrypt material nonce key.toUTF8.toList plaintext).2.bytes)

/-- The key of the payloads in a vault. -/
def material (keys : UnlockedVaultKeys P) : P.Key := P.hkdfExpand keys.masterKey localCacheKeyInfo

/-- A payload opens to its plaintext. -/
theorem openPayload_sealPayload (ideal : C.Ideal) (material : P.Key) (key : String)
    (nonce : FixedBytes 12) (plaintext : Bytes) :
    openPayload C material key (sealPayload C material key nonce plaintext) = some plaintext := by
  have hopen := ideal.gcmDecrypt_gcmEncrypt material nonce key.toUTF8.toList plaintext
  rw [sealPayload]
  generalize (C.gcmEncrypt material nonce key.toUTF8.toList plaintext).1 = ciphertext at hopen
  generalize (C.gcmEncrypt material nonce key.toUTF8.toList plaintext).2 = tag at hopen
  have hnonce : (nonce.bytes ++ (ciphertext ++ tag.bytes)).take cacheNonceLen = nonce.bytes :=
    List.take_left' nonce.length_bytes
  have hsealed : (nonce.bytes ++ (ciphertext ++ tag.bytes)).drop cacheNonceLen =
      ciphertext ++ tag.bytes := List.drop_left' nonce.length_bytes
  have hcut : (ciphertext ++ tag.bytes).length - gcmTagLen = ciphertext.length := by
    rw [List.length_append, tag.length_bytes]
    exact Nat.add_sub_cancel _ _
  have hlong : ¬ (nonce.bytes ++ (ciphertext ++ tag.bytes)).length ≤ cacheNonceLen := by
    rw [List.length_append, List.length_append, nonce.length_bytes, tag.length_bytes,
      cacheNonceLen]
    omega
  rw [openPayload, if_neg hlong, openSealed]
  simp only [hnonce, hsealed, hcut, List.take_left', List.drop_left', FixedBytes.tryFrom_bytes]
  exact hopen

section Runs

variable {keys : UnlockedVaultKeys P} {w : CacheWorld P}

theorem run_onCacheVault (p : VaultProg P α) (w : CacheWorld P) :
    (onCacheVault p).run w = ((p.run w.vault).1.mapError .vault,
      { w with vault := (p.run w.vault).2 }) := by
  rw [onCacheVault, Prog.run_zoom (fun w : CacheWorld P => w.vault)
    (fun vault w => { w with vault }) (fun _ _ => rfl) (fun _ _ _ => rfl) (fun _ => rfl),
    Prog.run_mapError]

theorem run_deriveCacheKey_locked (h : w.vault.inner = none) :
    (onCacheVault VaultKeyStore.deriveCacheKey).run w = (.error (.vault .locked), w) := by
  have hrun : VaultKeyStore.deriveCacheKey.run w.vault = (.error .locked, w.vault) := by
    rw [VaultKeyStore.deriveCacheKey, VaultKeyStore.requireMasterKey, readSlot,
      Prog.bind_assoc, Prog.run_query_bind, h]
    rfl
  rw [run_onCacheVault, hrun]
  rfl

theorem run_deriveCacheKey (h : w.vault.inner = some keys) :
    (onCacheVault VaultKeyStore.deriveCacheKey).run w = (.ok (material keys), w) := by
  have hrun : VaultKeyStore.deriveCacheKey.run w.vault = (.ok (material keys), w.vault) := by
    rw [VaultKeyStore.deriveCacheKey, VaultKeyStore.requireMasterKey, readSlot,
      Prog.bind_assoc, Prog.run_query_bind, h]
    rfl
  rw [run_onCacheVault, hrun]
  rfl

/-- A payload is decrypted if and only if the vault is open and the payload opens. -/
theorem run_decryptCachePayload (hslot : w.vault.inner = none ∨ w.vault.inner = some keys)
    (key : String) (payload : Bytes) : ∃ r,
      (decryptCachePayload C key payload).run w = (r, w) ∧ ∀ plaintext, r = .ok plaintext ↔
        w.vault.inner = some keys ∧ openPayload C (material keys) key payload = some plaintext := by
  rw [decryptCachePayload]
  by_cases hshort : payload.length ≤ cacheNonceLen
  · rw [if_pos hshort]
    refine ⟨_, rfl, fun plaintext => ?_⟩
    rw [openPayload, if_pos hshort]
    simp
  rw [if_neg hshort]
  rcases hslot with hlocked | hopen
  · rw [Prog.run_bind_of_error (run_deriveCacheKey_locked hlocked)]
    exact ⟨_, rfl, fun plaintext => by simp [hlocked]⟩
  · rw [Prog.run_bind_of_ok (run_deriveCacheKey hopen)]
    rw [openPayload, if_neg hshort]
    have hrun : ∀ opened : Option Bytes, ∃ r : Except CacheError Bytes,
        (Prog.ofOption (.crypto "cache decryption failed") opened).run w = (r, w) ∧
          ∀ plaintext, r = .ok plaintext ↔ w.vault.inner = some keys ∧ opened = some plaintext := by
      intro opened
      cases opened with
      | none => exact ⟨_, rfl, fun plaintext => by simp⟩
      | some opened => exact ⟨_, rfl, fun plaintext => by simp [hopen]⟩
    exact hrun (openSealed C (material keys) key payload)

/-- A payload is encrypted under the next draw if the vault is open. -/
theorem run_encryptCachePayload (hopen : w.vault.inner = some keys) (key : String)
    (plaintext : Bytes) : (encryptCachePayload C key plaintext).run w =
      (.ok (sealPayload C (material keys) key (C.randomNonce w.vault.draws) plaintext),
        { w with vault := { w.vault with draws := w.vault.draws + 1 } }) := by
  rw [encryptCachePayload, Prog.run_bind_of_ok (run_deriveCacheKey hopen)]
  have hdraw : (onCacheVault (draw id)).run w =
      (.ok w.vault.draws, { w with vault := { w.vault with draws := w.vault.draws + 1 } }) := by
    rw [run_onCacheVault]
    rfl
  rw [Prog.run_bind_of_ok hdraw]
  rfl

theorem run_encryptCachePayload_locked (hlocked : w.vault.inner = none) (key : String)
    (plaintext : Bytes) :
    (encryptCachePayload C key plaintext).run w = (.error (.vault .locked), w) := by
  rw [encryptCachePayload, Prog.run_bind_of_error (run_deriveCacheKey_locked hlocked)]

end Runs

/-! ## Contents -/

/-- Every entry stands at the path of its key, and whatever opens at the path of a key is what the
key stands for. -/
structure Holds (C : ChunkPrimitives P) (keys : UnlockedVaultKeys P) (rootDir : String)
    (content : ℤ → ℤ → Bytes → Prop) (disk : CacheDisk) : Prop where
  rows : ∀ e ∈ disk.index.entries, ∃ revisionId chunkIndex,
    e.cacheKey = cacheKey revisionId chunkIndex ∧
      e.cachePath = cachePathForKey C rootDir (cacheKey revisionId chunkIndex)
  files : ∀ revisionId chunkIndex payload bytes,
    disk.files (cachePathForKey C rootDir (cacheKey revisionId chunkIndex)) = some payload →
      openPayload C (material keys) (cacheKey revisionId chunkIndex) payload = some bytes →
        content revisionId chunkIndex bytes

section Holds

variable {keys : UnlockedVaultKeys P} {rootDir : String} {content : ℤ → ℤ → Bytes → Prop}
  {disk disk' : CacheDisk} {io : CacheIo} {revisionId chunkIndex : ℤ} {bytes : Bytes}

/-- An empty cache holds nothing that is wrong. -/
theorem Holds.empty : Holds C keys rootDir content ⟨.empty, fun _ => none⟩ where
  rows e he := by cases he
  files _ _ _ _ hfile := by cases hfile

/-- The keys may come to stand for more. -/
theorem Holds.mono (h : Holds C keys rootDir content disk) {content' : ℤ → ℤ → Bytes → Prop}
    (hle : ∀ revisionId chunkIndex bytes, content revisionId chunkIndex bytes →
      content' revisionId chunkIndex bytes) : Holds C keys rootDir content' disk :=
  ⟨h.rows, fun _ _ _ _ hfile hopen => hle _ _ _ (h.files _ _ _ _ hfile hopen)⟩

/-- Rows may go or change apart from their keys and paths, and files may go. -/
theorem Holds.shrink (h : Holds C keys rootDir content disk)
    (hrows : ∀ e ∈ disk'.index.entries, ∃ old ∈ disk.index.entries,
      e.cacheKey = old.cacheKey ∧ e.cachePath = old.cachePath)
    (hfiles : ∀ path, disk'.files path = disk.files path ∨ disk'.files path = none) :
    Holds C keys rootDir content disk' where
  rows e he := by
    obtain ⟨old, hold, hkey, hpath⟩ := hrows e he
    rw [hkey, hpath]
    exact h.rows old hold
  files revisionId chunkIndex payload bytes hfile hopen := by
    rcases hfiles (cachePathForKey C rootDir (cacheKey revisionId chunkIndex)) with hsame | hnone
    · exact h.files _ _ _ _ (hsame.symm.trans hfile) hopen
    · rw [hnone] at hfile
      cases hfile

theorem Holds.deleteCacheEntry (h : Holds C keys rootDir content disk) (key : String) :
    Holds C keys rootDir content { disk with index := disk.index.deleteCacheEntry key } :=
  h.shrink (fun e he => ⟨e, List.mem_of_mem_filter he, rfl, rfl⟩) fun _ => .inl rfl

theorem Holds.touchCacheEntry (h : Holds C keys rootDir content disk) (key : String) (now : ℤ) :
    Holds C keys rootDir content { disk with index := disk.index.touchCacheEntry key now } := by
  refine h.shrink (fun e he => ?_) fun _ => .inl rfl
  obtain ⟨old, hold, rfl⟩ := mem_updateWhere.mp he
  refine ⟨old, hold, ?_⟩
  split <;> exact ⟨rfl, rfl⟩

theorem Holds.deleteEntry (h : Holds C keys rootDir content disk) (io : CacheIo)
    (key path : String) :
    Holds C keys rootDir content (CacheManager.deleteEntry io key path disk).2 := by
  rw [CacheManager.deleteEntry]
  split
  · exact h
  · refine h.shrink (fun e he => ⟨e, List.mem_of_mem_filter he, rfl, rfl⟩) fun path' => ?_
    by_cases hpath : path' = path
    · rw [hpath]
      exact .inr (Function.update_self _ _ _)
    · exact .inl (Function.update_of_ne hpath _ _)

theorem Holds.evictIfNeeded (h : Holds C keys rootDir content disk) (maxBytes : ℕ)
    (protectedKey : Option String) :
    Holds C keys rootDir content (CacheManager.evictIfNeeded io maxBytes protectedKey disk).2 := by
  obtain ⟨⟨evicted, hevicted⟩, -⟩ := evicted_evictIfNeeded io maxBytes protectedKey disk
  refine h.shrink (fun e he => ?_) fun path => (hevicted.files path).imp_right And.left
  rw [hevicted.entries] at he
  exact ⟨e, List.mem_of_mem_filter he, rfl, rfl⟩

/-- A file may be written that opens to what its key stands for. -/
theorem Holds.writeFile (h : Holds C keys rootDir content disk) {payload : Bytes}
    (hwritten : ∀ bytes, openPayload C (material keys) (cacheKey revisionId chunkIndex) payload =
      some bytes → content revisionId chunkIndex bytes) :
    Holds C keys rootDir content { disk with
      files := Function.update disk.files
        (cachePathForKey C rootDir (cacheKey revisionId chunkIndex)) (some payload) } where
  rows := h.rows
  files revisionId' chunkIndex' payload' bytes hfile hopen := by
    dsimp only at hfile
    rw [Function.update_apply] at hfile
    split at hfile
    · rename_i hpath
      obtain ⟨rfl, rfl⟩ := cachePathForKey_inj.mp hpath
      rw [Option.some.inj hfile] at hwritten
      exact hwritten bytes hopen
    · exact h.files _ _ _ _ hfile hopen

/-- A file may go, or be replaced by one that does not open. -/
theorem Holds.setFile (h : Holds C keys rootDir content disk) {path : String}
    {payload : Option Bytes} (hclosed : ∀ bytes ∈ payload, ∀ revisionId chunkIndex,
      path = cachePathForKey C rootDir (cacheKey revisionId chunkIndex) →
        openPayload C (material keys) (cacheKey revisionId chunkIndex) bytes = none) :
    Holds C keys rootDir content { disk with
      files := Function.update disk.files path payload } where
  rows := h.rows
  files revisionId chunkIndex payload' bytes hfile hopen := by
    dsimp only at hfile
    rw [Function.update_apply] at hfile
    split at hfile
    · rename_i hpath
      rw [hclosed payload' hfile revisionId chunkIndex hpath.symm] at hopen
      cases hopen
    · exact h.files _ _ _ _ hfile hopen

theorem Holds.upsertCacheEntry (h : Holds C keys rootDir content disk) (entry : CacheEntryRecord)
    (hkey : entry.cacheKey = cacheKey revisionId chunkIndex)
    (hpath : entry.cachePath = cachePathForKey C rootDir (cacheKey revisionId chunkIndex)) :
    Holds C keys rootDir content { disk with index := disk.index.upsertCacheEntry entry } where
  rows e he := by
    rcases mem_of_mem_upsert he with hold | rfl | ⟨old, -, -, rfl⟩
    · exact h.rows e hold
    · exact ⟨_, _, hkey, hpath⟩
    · exact ⟨_, _, hkey, hpath⟩
  files := h.files

/-! ## Lookups and insertions -/

theorem run_dropEntry (io : CacheIo) (entry : CacheEntryRecord) (w : CacheWorld P) :
    (dropEntry io entry).run w =
      ((CacheManager.deleteEntry io entry.cacheKey entry.cachePath w.disk).1, { w with
        disk := (CacheManager.deleteEntry io entry.cacheKey entry.cachePath w.disk).2 }) :=
  run_onDisk _ w

/-- What a lookup leaves, and what it returns. -/
structure LookedUp (C : ChunkPrimitives P) (keys : UnlockedVaultKeys P) (rootDir : String)
    (content : ℤ → ℤ → Bytes → Prop) (revisionId chunkIndex : ℤ) (w : CacheWorld P)
    (out : Except CacheError (Option Bytes)) (w' : CacheWorld P) : Prop where
  world : ∃ disk, w' = { w with disk } ∧ Holds C keys rootDir content disk
  right : ∀ bytes, out = .ok (some bytes) → content revisionId chunkIndex bytes

/-- A lookup that hits returns what the key stands for, and every lookup leaves the contents as they
should be. -/
theorem lookedUp_of_run {w w' : CacheWorld P}
    (hslot : w.vault.inner = none ∨ w.vault.inner = some keys)
    (h : Holds C keys rootDir content w.disk) {out : Except CacheError (Option Bytes)}
    (hrun : (getChunk C io (cacheKey revisionId chunkIndex)).run w = (out, w')) :
    LookedUp C keys rootDir content revisionId chunkIndex w out w' := by
  have hmiss : ∀ disk, Holds C keys rootDir content disk →
      LookedUp C keys rootDir content revisionId chunkIndex w (.ok none) { w with disk } :=
    fun disk hdisk => ⟨⟨disk, rfl, hdisk⟩, fun bytes hbytes => by cases hbytes⟩
  have hfail : ∀ e disk, Holds C keys rootDir content disk →
      LookedUp C keys rootDir content revisionId chunkIndex w (.error e) { w with disk } :=
    fun e disk hdisk => ⟨⟨disk, rfl, hdisk⟩, fun bytes hbytes => by cases hbytes⟩
  have hdropped : ∀ entry : CacheEntryRecord, ∀ out w',
      (dropEntry io entry >>= fun _ => (pure none : CacheProg P (Option Bytes))).run w =
        (out, w') → LookedUp C keys rootDir content revisionId chunkIndex w out w' := by
    intro entry out w' hrun
    have hdrop := run_dropEntry io entry w
    have hdisk := h.deleteEntry io entry.cacheKey entry.cachePath
    rcases hdelete : CacheManager.deleteEntry io entry.cacheKey entry.cachePath w.disk with
      ⟨e | u, disk⟩
    · rw [hdelete] at hdrop hdisk
      rw [Prog.run_bind_of_error hdrop] at hrun
      cases hrun
      exact hfail e disk hdisk
    · rw [hdelete] at hdrop hdisk
      rw [Prog.run_bind_of_ok hdrop] at hrun
      cases hrun
      exact hmiss disk hdisk
  rw [getChunk, Prog.run_query_bind] at hrun
  rcases hentry : w.disk.index.getCacheEntry (cacheKey revisionId chunkIndex) with _ | entry
  · rw [hentry] at hrun
    cases hrun
    exact hmiss w.disk h
  rw [hentry] at hrun
  dsimp only at hrun
  rw [Prog.run_query_bind] at hrun
  rcases hfile : w.disk.files entry.cachePath with _ | payload
  · rw [hfile] at hrun
    cases hrun
    exact hmiss _ (h.deleteCacheEntry _)
  rw [hfile] at hrun
  dsimp only at hrun
  split at hrun
  · cases hrun
    exact hfail _ w.disk h
  obtain ⟨r, hdecrypt, hopens⟩ :=
    run_decryptCachePayload (C := C) hslot (cacheKey revisionId chunkIndex) payload
  have hattempt := Prog.run_attempt (γ := CacheError)
    (decryptCachePayload C (cacheKey revisionId chunkIndex) payload) w
  rw [hdecrypt] at hattempt
  rw [Prog.run_bind_of_ok hattempt] at hrun
  rcases r with e | plaintext
  · exact hdropped entry _ _ hrun
  dsimp only at hrun
  rcases hsize : cacheI64 plaintext.length "cache plaintext length" with e | byteLen
  · rw [hsize] at hrun
    cases hrun
    exact hfail e w.disk h
  rw [hsize, Prog.ofExcept_ok, Prog.ret_bind] at hrun
  split at hrun
  · exact hdropped entry _ _ hrun
  rw [Prog.run_query_bind] at hrun
  cases hrun
  refine ⟨⟨_, rfl, h.touchCacheEntry _ _⟩, fun bytes hbytes => ?_⟩
  cases hbytes
  obtain ⟨-, hopened⟩ := (hopens plaintext).mp rfl
  obtain ⟨revisionId', chunkIndex', hkey, hpath⟩ :=
    h.rows entry (List.mem_of_find?_eq_some hentry)
  have hsame : entry.cacheKey = cacheKey revisionId chunkIndex := by
    simpa using List.find?_some hentry
  obtain ⟨rfl, rfl⟩ := cacheKey_inj.mp (hkey.symm.trans hsame)
  rw [hpath] at hfile
  exact h.files _ _ _ _ hfile hopened

/-- The bytes are found under a key. -/
structure Filed (C : ChunkPrimitives P) (keys : UnlockedVaultKeys P) (rootDir : String)
    (revisionId chunkIndex : ℤ) (bytes : Bytes) (disk : CacheDisk) : Prop where
  entry : ∃ e, disk.index.getCacheEntry (cacheKey revisionId chunkIndex) = some e ∧
    e.cachePath = cachePathForKey C rootDir (cacheKey revisionId chunkIndex) ∧
      e.size = bytes.length
  file : ∃ payload,
    disk.files (cachePathForKey C rootDir (cacheKey revisionId chunkIndex)) = some payload ∧
      openPayload C (material keys) (cacheKey revisionId chunkIndex) payload = some bytes
  fits : bytes.length < 2 ^ 63

/-- The row of an insertion is found. -/
theorem getCacheEntry_upsertCacheEntry (entry : CacheEntryRecord) (index : CacheIndex) : ∃ e,
    (index.upsertCacheEntry entry).getCacheEntry entry.cacheKey = some e ∧
      e.cacheKey = entry.cacheKey ∧ e.cachePath = entry.cachePath ∧ e.size = entry.size := by
  rw [CacheIndex.getCacheEntry, CacheIndex.upsertCacheEntry]
  dsimp only
  induction index.entries with
  | nil => exact ⟨entry, by simp [upsert], rfl, rfl, rfl⟩
  | cons e rest ih =>
    rw [upsert]
    split
    · exact ⟨_, List.find?_cons_of_pos (by simp), rfl, rfl, rfl⟩
    · rename_i hkey
      rw [List.find?_cons_of_neg (by simpa using hkey)]
      exact ih

/-- An eviction that protects the key does not take its bytes. -/
theorem Filed.evictIfNeeded (h : Filed C keys rootDir revisionId chunkIndex bytes disk)
    (hholds : Holds C keys rootDir content disk) (maxBytes : ℕ) :
    Filed C keys rootDir revisionId chunkIndex bytes (CacheManager.evictIfNeeded io maxBytes
      (some (cacheKey revisionId chunkIndex)) disk).2 := by
  obtain ⟨⟨evicted, hevicted⟩, -⟩ := evicted_evictIfNeeded io maxBytes
    (some (cacheKey revisionId chunkIndex)) disk
  have hspared : ∀ e ∈ evicted, e ∈ disk.index.entries ∧
      e.cacheKey ≠ cacheKey revisionId chunkIndex := by
    intro e he
    have hfirst := hevicted.first.trans (Eviction.first_of_victims CacheEntryRecord.size
      (isProtected (some (cacheKey revisionId chunkIndex))) maxBytes _ disk.index.byLru)
    obtain ⟨hlisted, hunprotected⟩ := List.mem_filter.mp (hfirst.subset he)
    refine ⟨CacheIndex.mem_byLru.mp hlisted, fun hkey => ?_⟩
    simp [isProtected, hkey] at hunprotected
  obtain ⟨e, hentry, hpath, hsize⟩ := h.entry
  obtain ⟨payload, hfile, hopen⟩ := h.file
  refine ⟨⟨e, ?_, hpath, hsize⟩, ⟨payload, ?_, hopen⟩, h.fits⟩
  · have hmem := List.mem_of_find?_eq_some hentry
    have hkey : e.cacheKey = cacheKey revisionId chunkIndex := by
      simpa using List.find?_some hentry
    have hleft : e ∈ disk.index.entries.filter fun e => e ∉ evicted := by
      rw [List.mem_filter, decide_eq_true_eq]
      exact ⟨hmem, fun he => (hspared e he).2 hkey⟩
    have hfound := find?_of_unique CacheEntryRecord.cacheKey hleft fun e' he' hsame =>
      List.inj_on_of_nodup_map disk.index.keys_nodup (List.mem_of_mem_filter he') hmem hsame
    rw [CacheIndex.getCacheEntry, hevicted.entries]
    rwa [hkey] at hfound
  · rcases hevicted.files (cachePathForKey C rootDir (cacheKey revisionId chunkIndex)) with
      hsame | ⟨-, victim, hvictim, hvictimPath⟩
    · rw [hsame]
      exact hfile
    · obtain ⟨hlisted, hother⟩ := hspared victim hvictim
      obtain ⟨revisionId', chunkIndex', hkey, hpath'⟩ := hholds.rows victim hlisted
      obtain ⟨rfl, rfl⟩ := cachePathForKey_inj.mp (hpath'.symm.trans hvictimPath)
      exact absurd hkey hother

/-- Bytes that are filed are looked up. -/
theorem run_getChunk_of_filed {w : CacheWorld P} (hopen : w.vault.inner = some keys)
    (h : Filed C keys rootDir revisionId chunkIndex bytes w.disk)
    (hreads : io.reads (cachePathForKey C rootDir (cacheKey revisionId chunkIndex)) = true) :
    ∃ w', (getChunk C io (cacheKey revisionId chunkIndex)).run w = (.ok (some bytes), w') := by
  obtain ⟨e, hentry, hpath, hsize⟩ := h.entry
  obtain ⟨payload, hfile, hopened⟩ := h.file
  obtain ⟨r, hdecrypt, hopens⟩ :=
    run_decryptCachePayload (C := C) (.inr hopen) (cacheKey revisionId chunkIndex) payload
  have hok : r = .ok bytes := (hopens bytes).mpr ⟨hopen, hopened⟩
  have hattempt := Prog.run_attempt (γ := CacheError)
    (decryptCachePayload C (cacheKey revisionId chunkIndex) payload) w
  rw [hdecrypt, hok] at hattempt
  have hbyteLen : cacheI64 bytes.length "cache plaintext length" = .ok (bytes.length : ℤ) :=
    if_pos h.fits
  rw [getChunk, Prog.run_query_bind, hentry]
  dsimp only
  rw [Prog.run_query_bind, hpath, hfile]
  dsimp only
  rw [hreads, if_neg (by decide), Prog.run_bind_of_ok hattempt]
  dsimp only
  rw [hbyteLen, Prog.ofExcept_ok, Prog.ret_bind, if_neg (by simp [hsize])]
  exact ⟨_, rfl⟩

/-- What an insertion leaves of the world. -/
structure Inserted (C : ChunkPrimitives P) (keys : UnlockedVaultKeys P) (rootDir : String)
    (content : ℤ → ℤ → Bytes → Prop) (revisionId chunkIndex : ℤ) (bytes : Bytes)
    (w : CacheWorld P) (out : Except CacheError Unit) (w' : CacheWorld P) : Prop where
  world : ∃ disk draws, w' = { w with vault := { w.vault with draws }, disk } ∧
    w.vault.draws ≤ draws ∧ Holds C keys rootDir content disk
  filed : out = .ok () → w.vault.inner = some keys ∧
    Filed C keys rootDir revisionId chunkIndex bytes w'.disk

/-- An insertion of what the key stands for keeps the contents as they should be, and where it
succeeds the bytes are filed. -/
theorem inserted_of_run (ideal : C.Ideal) {w w' : CacheWorld P}
    (hslot : w.vault.inner = none ∨ w.vault.inner = some keys)
    (h : Holds C keys rootDir content w.disk)
    (hcontent : content revisionId chunkIndex bytes) {maxBytes : ℕ} {inodeId : ℤ}
    {packId filePath : String} {isPrefetched : Bool} {out : Except CacheError Unit}
    (hrun : (putChunk C io rootDir maxBytes inodeId revisionId chunkIndex packId filePath bytes
      isPrefetched).run w = (out, w')) :
    Inserted C keys rootDir content revisionId chunkIndex bytes w out w' := by
  have hsame : ∀ e, Inserted C keys rootDir content revisionId chunkIndex bytes w (.error e) w :=
    fun e => ⟨⟨w.disk, w.vault.draws, rfl, le_rfl, h⟩, fun hok => by cases hok⟩
  rw [putChunk] at hrun
  split at hrun
  · cases hrun
    exact hsame _
  rcases hslot with hlocked | hopen
  · rw [Prog.run_bind_of_error (run_encryptCachePayload_locked hlocked _ _)] at hrun
    cases hrun
    exact hsame _
  rw [Prog.run_bind_of_ok (run_encryptCachePayload hopen _ _), writeCacheFile] at hrun
  split at hrun
  · cases hrun
    exact ⟨⟨w.disk, _, rfl, Nat.le_succ _, h⟩, fun hok => by cases hok⟩
  have hopens := openPayload_sealPayload ideal (material keys) (cacheKey revisionId chunkIndex)
    (C.randomNonce w.vault.draws) bytes
  generalize sealPayload C (material keys) (cacheKey revisionId chunkIndex)
    (C.randomNonce w.vault.draws) bytes = payload at hrun hopens
  have hright : ∀ bytes', openPayload C (material keys) (cacheKey revisionId chunkIndex) payload =
      some bytes' → content revisionId chunkIndex bytes' := by
    intro bytes' hbytes'
    rw [hopens] at hbytes'
    exact Option.some.inj hbytes' ▸ hcontent
  have hwritten := h.writeFile hright
  rw [Prog.run_exec_bind] at hrun
  rcases hsize : cacheI64 bytes.length "cache write length" with e | size
  · rw [hsize] at hrun
    cases hrun
    exact ⟨⟨_, _, rfl, Nat.le_succ _, hwritten⟩, fun hok => by cases hok⟩
  have hfits : bytes.length < 2 ^ 63 ∧ size = bytes.length := by
    rw [cacheI64] at hsize
    split at hsize
    · rename_i hlt
      exact ⟨hlt, (Except.ok.inj hsize).symm⟩
    · cases hsize
  rw [hsize, Prog.ofExcept_ok, Prog.ret_bind, Prog.run_query_bind, writeIndex,
    Prog.run_exec_bind, run_onDisk] at hrun
  obtain ⟨rfl, rfl⟩ := Prod.mk.inj hrun
  have hinserted := hwritten.upsertCacheEntry (newEntry C rootDir inodeId revisionId chunkIndex
    packId filePath size isPrefetched w.now) rfl rfl
  refine ⟨⟨_, w.vault.draws + 1, rfl, Nat.le_succ _, hinserted.evictIfNeeded maxBytes _⟩,
    fun _ => ⟨hopen, Filed.evictIfNeeded ?_ hinserted maxBytes⟩⟩
  obtain ⟨e, hentry, -, hpath, hentrySize⟩ := getCacheEntry_upsertCacheEntry
    (newEntry C rootDir inodeId revisionId chunkIndex packId filePath size isPrefetched w.now)
    w.disk.index
  exact ⟨⟨e, hentry, hpath, hentrySize.trans hfits.2⟩,
    ⟨payload, Function.update_self _ _ _, hopens⟩, hfits.1⟩

end Holds

end CacheManager

end OmniDrive
