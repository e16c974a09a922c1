import OmniDrive.Storage.StoredChunk

/-!
# What preparing a file does

Preparing the chunks of a file leaves the file tables alone. It draws a DEK and writes a manifest
and shards for every chunk whose plaintext no pack holds, and picks the stored pack for the others.
-/

namespace OmniDrive

open StatementProgram Tables ByteFields Packer

variable {P : Primitives} {C : ChunkPrimitives P} {known : Bytes → Prop} {cur vaultKey : P.Key}
  {all chunks : List StoredChunk}

/-! ## The vault -/

/-- The V1 read depends on the row of the vault and on the key slot only. -/
theorem run_vaultKeyForV1Read_congr {v v' : VaultWorld P} {key : P.Key}
    (hstate : v'.db.vaultState = v.db.vaultState) (hinner : v'.inner = v.inner)
    (h : VaultKeyStore.vaultKeyForV1Read.run v = (.ok key, v)) :
    VaultKeyStore.vaultKeyForV1Read.run v' = (.ok key, v') := by
  rw [VaultKeyStore.vaultKeyForV1Read, Db.getLegacyReadKey, run_selectDb_bind] at h ⊢
  rw [hstate]
  rcases hlegacy : v.db.vaultState.bind (·.legacyReadKey) with _ | blob
  · rw [hlegacy] at h
    simp only [VaultKeyStore.run_requireKey, hinner] at h ⊢
    rcases hkeys : v.inner with _ | keys
    · rw [hkeys] at h
      cases h
    · rw [hkeys] at h
      cases h
      rfl
  · rw [hlegacy] at h
    simp only at h ⊢
    have henvelope := VaultKeyStore.run_requireEnvelopeKey v
    have henvelope' := VaultKeyStore.run_requireEnvelopeKey v'
    rw [hinner] at henvelope'
    rcases henv : v.inner.bind (·.envelopeVaultKey) with _ | envelope
    · rw [henv] at henvelope
      rw [Prog.run_bind_of_error henvelope] at h
      cases h
    rw [henv] at henvelope henvelope'
    rw [Prog.run_bind_of_ok henvelope] at h
    rw [Prog.run_bind_of_ok henvelope', Db.getVaultParams, run_selectDb_bind, hstate]
    rw [Db.getVaultParams, run_selectDb_bind] at h
    rcases hvault : v.db.vaultState with _ | record
    · rw [hvault] at h
      cases h
    rw [hvault] at h
    simp only [Prog.ofOption_some, Prog.ret_bind, openLegacyReadKey, liftCrypto] at h ⊢
    rcases hopen : decryptSecret (deriveSubkey envelope legacyReadKeyInfo) blob record.vaultId with
      e | plaintext
    · rw [hopen] at h
      cases h
    · rw [hopen] at h
      cases plaintext with
      | exact k =>
        cases h
        rfl
      | other bytes => cases h

/-- The vault after the keys of a new pack have been drawn. -/
def keysDrawn (cur : P.Key) (inodeId : ℤ) (vault : VaultWorld P) : VaultWorld P :=
  { VaultKeyStore.dekInserted cur inodeId (Db.nextKeyVersion inodeId vault.db) vault with
    draws := vault.draws + 2 }

/-- The rows of the other DEKs are found as before. -/
theorem find?_keysDrawn (inodeId : ℤ) {vault : VaultWorld P} {dekId : ℤ} {row : WrappedDekRecord P}
    (hrow : vault.db.deks.find? (·.dekId = dekId) = some row) :
    (keysDrawn cur inodeId vault).db.deks.find? (·.dekId = dekId) = some row := by
  have happend : (keysDrawn cur inodeId vault).db.deks = vault.db.deks ++
      [{ dekId := vault.db.dekSequence + 1, inodeId, wrappedDek := .exact _, keyVersion := _,
         vaultKeyGen := _ }] := rfl
  rw [happend, List.find?_append, hrow, Option.some_or]

namespace VaultOpen

variable {vault : VaultWorld P} (h : VaultOpen cur vaultKey vault) (inodeId : ℤ)
include h

/-- Drawing the keys of a new pack leaves the vault open. -/
theorem keysDrawn : VaultOpen cur vaultKey (keysDrawn cur inodeId vault) where
  envelope := h.envelope
  v1 := by
    have hstate : (OmniDrive.keysDrawn cur inodeId vault).db.vaultState = vault.db.vaultState := rfl
    have hinner : (OmniDrive.keysDrawn cur inodeId vault).inner = vault.inner := rfl
    exact run_vaultKeyForV1Read_congr hstate hinner h.v1
  deks row hrow := by
    rcases List.mem_append.mp hrow with hold | hnew
    · have hle := h.deks row hold
      show row.dekId ≤ vault.db.dekSequence + 1
      omega
    · rw [List.mem_singleton.mp hnew]
      exact Int.le_refl _

/-- The keys of a new pack are its DEK, under the next identifier, and its nonce. -/
theorem run_keys (f : VaultError → PackerError) {β : Type} (k : ℤ × P.Key → ℕ → FileProg P PackerError β)
    (w : FileWorld P) (hw : w.vault = vault) :
    (onVault f (VaultKeyStore.createPackDek inodeId) >>= fun d => onVault f (draw id) >>= k d).run w =
      (k (vault.db.dekSequence + 1, P.randomKey vault.draws) (vault.draws + 1)).run
        { w with vault := OmniDrive.keysDrawn cur inodeId vault } := by
  have henvelope := h.envelope
  rcases hinner : vault.inner with _ | keys
  · rw [hinner] at henvelope
    cases henvelope
  rw [hinner, Option.bind_some] at henvelope
  have hdek := run_onVault f (VaultKeyStore.createPackDek inodeId) w
  rw [hw, VaultKeyStore.run_createPackDek inodeId hinner henvelope] at hdek
  rw [Prog.run_bind_of_ok hdek]
  have hnonce := run_onVault f (draw id)
    { w with vault := VaultKeyStore.dekInserted cur inodeId (Db.nextKeyVersion inodeId vault.db) vault }
  rw [Prog.run_bind_of_ok hnonce]
  rfl

/-- The row of the new DEK. -/
theorem find?_newDek : ∃ row, (OmniDrive.keysDrawn cur inodeId vault).db.deks.find?
      (·.dekId = vault.db.dekSequence + 1) = some row ∧
    VaultKeyStore.WrappedUnder cur row (P.randomKey vault.draws) := by
  have hnone : vault.db.deks.find? (·.dekId = vault.db.dekSequence + 1) = none := by
    apply find?_of_fresh
    intro row hrow heq
    have hle := h.deks row hrow
    omega
  have happend : (OmniDrive.keysDrawn cur inodeId vault).db.deks = vault.db.deks ++
      [{ dekId := vault.db.dekSequence + 1, inodeId, wrappedDek := .exact _, keyVersion := _,
         vaultKeyGen := _ }] := rfl
  rw [happend, List.find?_append, hnone, Option.none_or, List.find?_cons_of_pos (by simp)]
  exact ⟨_, rfl, rfl⟩

end VaultOpen

/-! ## The spool -/

/-- The spool after these shards of a pack have been written. -/
def setShards (packId : String) : ℕ → List Bytes → SpoolDir → SpoolDir
  | _, [], spool => spool
  | index, bytes :: rest, spool =>
    setShards packId (index + 1) rest (SpoolDir.setShard packId index bytes spool)

@[simp] theorem manifests_setShards (packId : String) (index : ℕ) (bytes : List Bytes)
    (spool : SpoolDir) : (setShards packId index bytes spool).manifests = spool.manifests := by
  induction bytes generalizing index spool with
  | nil => rfl
  | cons b rest ih => rw [setShards, ih, SpoolDir.setShard]

theorem shards_setShard (packId id : String) (index i : ℕ) (bytes : Bytes) (spool : SpoolDir) :
    (SpoolDir.setShard packId index bytes spool).shards id i =
      if id = packId ∧ i = index then some bytes else spool.shards id i := by
  simp only [SpoolDir.setShard, Function.update_apply]
  by_cases hid : id = packId
  · by_cases hi : i = index
    · simp [hid, hi]
    · simp [hid, hi]
  · simp [hid]

/-- The written shards are the ones from the first index on; the others are as before. -/
theorem shards_setShards (packId id : String) (index i : ℕ) (bytes : List Bytes)
    (spool : SpoolDir) : (setShards packId index bytes spool).shards id i =
      if id = packId ∧ index ≤ i ∧ i < index + bytes.length then bytes[i - index]?
      else spool.shards id i := by
  induction bytes generalizing index spool with
  | nil =>
    rw [if_neg (by simp only [List.length_nil]; omega)]
    rfl
  | cons b rest ih =>
    rw [setShards, ih, shards_setShard]
    simp only [List.length_cons]
    by_cases hid : id = packId
    · rcases Nat.lt_trichotomy i index with hlt | heq | hgt
      · rw [if_neg (by omega), if_neg (by omega), if_neg (by omega)]
      · rw [if_neg (by omega), if_pos ⟨hid, heq⟩, if_pos ⟨hid, by omega, by omega⟩, heq,
          Nat.sub_self]
        rfl
      · have hindex : i - index = (i - (index + 1)) + 1 := by omega
        by_cases hend : i < index + (rest.length + 1)
        · rw [if_pos ⟨hid, by omega, by omega⟩, if_pos ⟨hid, by omega, hend⟩, hindex,
            List.getElem?_cons_succ]
        · rw [if_neg (by omega), if_neg (by omega), if_neg (by omega)]
    · rw [if_neg (fun h => hid h.1), if_neg (fun h => hid h.1), if_neg (fun h => hid h.1)]

/-- Building shards writes the first of them, and all of them where it succeeds. -/
theorem run_buildShardsFrom (mode : StorageMode) (packId : String) (index : ℕ)
    (bytes : List Bytes) (w : FileWorld P) : ∃ k,
      ((buildShardsFrom C mode packId index bytes).run w).2 =
        { w with spool := setShards packId index (bytes.take k) w.spool } ∧
      ∀ shards, ((buildShardsFrom C mode packId index bytes).run w).1 = .ok shards →
        bytes.take k = bytes ∧ shards = preparedShardsFrom C mode packId index bytes := by
  induction bytes generalizing index w with
  | nil =>
    refine ⟨0, rfl, fun shards h => ⟨rfl, ?_⟩⟩
    cases h
    rfl
  | cons b rest ih =>
    rw [buildShardsFrom, writeShard, Prog.run_exec_bind]
    rcases hindex : toI64 index "shard index" with e | _
    · refine ⟨1, ?_, fun shards h => by cases h⟩
      rw [Prog.ofExcept_error, Prog.fail_bind, Prog.run_fail]
      rfl
    rw [Prog.ofExcept_ok, Prog.ret_bind]
    rcases hsize : toI64 b.length "shard size" with e | _
    · refine ⟨1, ?_, fun shards h => by cases h⟩
      rw [Prog.ofExcept_error, Prog.fail_bind, Prog.run_fail]
      rfl
    rw [Prog.ofExcept_ok, Prog.ret_bind]
    obtain ⟨k, hstate, hok⟩ := ih (index + 1)
      { w with spool := SpoolDir.setShard packId index b w.spool }
    rcases hrun : (buildShardsFrom C mode packId (index + 1) rest).run
      { w with spool := SpoolDir.setShard packId index b w.spool } with ⟨e | tail, t⟩
    · rw [hrun] at hstate
      rw [Prog.run_bind_of_error hrun]
      exact ⟨k + 1, hstate, fun shards h => by cases h⟩
    · rw [hrun] at hstate hok
      rw [Prog.run_bind_of_ok hrun]
      refine ⟨k + 1, hstate, fun shards h => ?_⟩
      obtain ⟨htake, htail⟩ := hok tail rfl
      cases h
      rw [List.take_succ_cons, htake, htail]
      exact ⟨rfl, rfl⟩

/-! ## A new pack -/

/-- The chunk that a new pack is prepared for. -/
def newChunk (plaintext : Bytes) (mode : StorageMode) (vault : VaultWorld P) : StoredChunk :=
  { plaintext, storageMode := mode, dekId := vault.db.dekSequence + 1, keyDraw := vault.draws }

/-- The world after the keys, the manifest and `k` shards of a new pack have been written. -/
def packSpooled (C : ChunkPrimitives P) (cur : P.Key) (inodeId : ℤ) (c : StoredChunk) (k : ℕ)
    (w : FileWorld P) : FileWorld P :=
  { w with
    vault := keysDrawn cur inodeId w.vault
    spool := setShards (c.packId C) 0 ((c.shardFiles C).take k)
      { w.spool with
        manifests := Function.update w.spool.manifests (c.packId C) (some (c.manifest C)) } }

theorem toI64_eq_ok {value : ℕ} {context : String} {n : ℤ} (h : toI64 value context = .ok n) :
    n = value ∧ value < 2 ^ 63 := by
  unfold toI64 at h
  split at h
  · rename_i hlt
    cases h
    exact ⟨rfl, hlt⟩
  · cases h

theorem toI64_of_lt {value : ℕ} (context : String) (h : value < 2 ^ 63) :
    toI64 value context = .ok value := if_pos h

@[simp] theorem StoredChunk.length_manifest (c : StoredChunk) :
    (c.manifest C).length = 80 + (c.encrypted C).ciphertext.length + 16 := by
  rw [StoredChunk.manifest, buildManifestBytesV2, length_chunkRecord, ChunkRecordPrefix.size,
    ChunkRecordPrefix.gcmTagSize]

/-- A ciphertext is as long as its plaintext. -/
theorem StoredChunk.length_ciphertext (ideal : C.Ideal) (c : StoredChunk) :
    (c.encrypted C).ciphertext.length = c.plaintext.length := ideal.length_gcmEncrypt _ _ _ _

/-- The stored shard size is the one of the first shard. -/
theorem shardSizeOf_shards (c : StoredChunk) {size : ℤ}
    (h : shardSizeOf c.storageMode (c.shards C) = .ok size) : size = c.shardSize C := by
  rcases hmode : c.storageMode with _ | _ | _
  · simp only [shardSizeOf, hmode, StoredChunk.shards, StoredChunk.shardFiles, shardBytes,
      splitCiphertextIntoShards, preparedShardsFrom, preparedShard] at h
    cases h
    simp [StoredChunk.shardSize, hmode, StoredChunk.shardFiles, shardBytes,
      splitCiphertextIntoShards]
  · simp only [shardSizeOf, hmode, StoredChunk.shards, StoredChunk.shardFiles, shardBytes,
      preparedShardsFrom, preparedShard] at h
    cases h
    simp [StoredChunk.shardSize, hmode, StoredChunk.shardFiles, shardBytes]
  · simp only [shardSizeOf, hmode] at h
    cases h
    simp [StoredChunk.shardSize, hmode]

/-- What is left to do for a new pack once its shards are written. -/
def finishPack (C : ChunkPrimitives P) (c : StoredChunk) (fileOffset : ℤ)
    (shards : List PreparedShard) : FileProg P PackerError PreparedPack := do
  let cipherSize ← Prog.ofExcept (toI64 (c.encrypted C).ciphertext.length "cipher size")
  let shardSize ← Prog.ofExcept (shardSizeOf c.storageMode shards)
  let manifestSize ← Prog.ofExcept (toI64 (c.manifest C).length "manifest size")
  pure { c.prepared C fileOffset false with cipherSize, shardSize, manifestSize, shards }

/-- Finishing a new pack touches nothing, and returns what belongs to its chunk. -/
theorem run_finishPack (ideal : C.Ideal) (c : StoredChunk) (fileOffset : ℤ) (w : FileWorld P) :
    ((finishPack C c fileOffset (c.shards C)).run w).2 = w ∧
      ∀ prepared, ((finishPack C c fileOffset (c.shards C)).run w).1 = .ok prepared →
        prepared = c.prepared C fileOffset false ∧ c.plaintext.length + 96 < 2 ^ 63 := by
  rw [finishPack]
  rcases hcipher : toI64 (c.encrypted C).ciphertext.length "cipher size" with e | cipherSize
  · exact ⟨rfl, fun prepared h => by cases h⟩
  rcases hshard : shardSizeOf c.storageMode (c.shards C) with e | shardSize
  · exact ⟨rfl, fun prepared h => by cases h⟩
  rcases hmanifest : toI64 (c.manifest C).length "manifest size" with e | manifestSize
  · exact ⟨rfl, fun prepared h => by cases h⟩
  refine ⟨rfl, fun prepared h => ?_⟩
  obtain ⟨rfl, -⟩ := toI64_eq_ok hcipher
  obtain ⟨rfl, hlt⟩ := toI64_eq_ok hmanifest
  obtain rfl := shardSizeOf_shards c hshard
  cases h
  rw [c.length_manifest, c.length_ciphertext ideal] at hlt
  exact ⟨rfl, by omega⟩

/-- A new pack draws its keys and writes its files, and returns what belongs to its chunk. -/
theorem run_newPack (ideal : C.Ideal) {w : FileWorld P} (hopen : VaultOpen cur vaultKey w.vault)
    (inodeId : ℤ) (mode : StorageMode) (fileOffset : ℤ) (plaintext : Bytes) : ∃ k,
      ((newPack C inodeId mode (C.sha256Hex plaintext) fileOffset plaintext.length plaintext).run
        w).2 = packSpooled C cur inodeId (newChunk plaintext mode w.vault) k w ∧
      ∀ prepared, ((newPack C inodeId mode (C.sha256Hex plaintext) fileOffset plaintext.length
          plaintext).run w).1 = .ok prepared →
        prepared = (newChunk plaintext mode w.vault).prepared C fileOffset false ∧
          plaintext.length + 96 < 2 ^ 63 := by
  obtain ⟨c, hc⟩ : ∃ c, c = newChunk plaintext mode w.vault := ⟨_, rfl⟩
  have hprog : (newPack C inodeId mode (C.sha256Hex plaintext) fileOffset plaintext.length
      plaintext).run w = (writeManifest (c.packId C) (c.manifest C) >>= fun _ =>
        buildShardsFrom C c.storageMode (c.packId C) 0 (c.shardFiles C) >>=
          finishPack C c fileOffset).run { w with vault := keysDrawn cur inodeId w.vault } := by
    rw [hc]
    exact hopen.run_keys inodeId .vault (fun d => spoolPack C mode (C.sha256Hex plaintext) fileOffset
      plaintext.length plaintext d.1 d.2) w rfl
  have hplain : c.plaintext = plaintext := by rw [hc]; rfl
  rw [← hc, hprog, writeManifest, Prog.run_exec_bind, ← hplain]
  obtain ⟨k, hstate, hok⟩ := run_buildShardsFrom (C := C) c.storageMode (c.packId C) 0
    (c.shardFiles C)
    { w with
      vault := keysDrawn cur inodeId w.vault
      spool :=
        { w.spool with
          manifests := Function.update w.spool.manifests (c.packId C) (some (c.manifest C)) } }
  refine ⟨k, ?_⟩
  rcases hrun : (buildShardsFrom C c.storageMode (c.packId C) 0 (c.shardFiles C)).run
    { w with
      vault := keysDrawn cur inodeId w.vault
      spool :=
        { w.spool with
          manifests := Function.update w.spool.manifests (c.packId C) (some (c.manifest C)) } } with
    ⟨e | shards, t⟩
  · rw [hrun] at hstate
    rw [Prog.run_bind_of_error hrun]
    exact ⟨hstate, fun prepared h => by cases h⟩
  · rw [hrun] at hstate hok
    rw [Prog.run_bind_of_ok hrun]
    obtain ⟨htake, hshards⟩ := hok shards rfl
    have hfinish := run_finishPack ideal c fileOffset t
    rw [hshards]
    exact ⟨hfinish.1.trans hstate, hfinish.2⟩

/-- The keys and files of a new pack join those of the others. -/
theorem FilesInv.packSpooled (ideal : C.Ideal) {w : FileWorld P}
    (h : FilesInv C known cur vaultKey all w) (inodeId : ℤ) (mode : StorageMode)
    {plaintext : Bytes} (hknown : known plaintext) (k : ℕ) :
    FilesInv C known cur vaultKey (all ++ [newChunk plaintext mode w.vault])
      (packSpooled C cur inodeId (newChunk plaintext mode w.vault) k w) where
  vault := h.vault.keysDrawn inodeId
  drawn c hc := by
    rcases List.mem_append.mp hc with hold | hnew
    · exact Nat.lt_of_lt_of_le (h.drawn c hold) (Nat.le_add_right _ 2)
    · rw [List.mem_singleton.mp hnew]
      exact Nat.lt_add_of_pos_right (by decide)
  distinct := by
    apply nodup_append_fresh h.distinct
    intro c hc
    exact Nat.ne_of_lt (h.drawn c hc)
  known c hc := by
    rcases List.mem_append.mp hc with hold | hnew
    · exact h.known c hold
    · rw [List.mem_singleton.mp hnew]
      exact hknown
  deks c hc := by
    rcases List.mem_append.mp hc with hold | hnew
    · obtain ⟨row, hrow, hwrapped⟩ := h.deks c hold
      exact ⟨row, find?_keysDrawn inodeId hrow, hwrapped⟩
    · rw [List.mem_singleton.mp hnew]
      exact h.vault.find?_newDek inodeId
  manifests c hc hlocal := by
    have hmanifests : (OmniDrive.packSpooled C cur inodeId (newChunk plaintext mode w.vault) k
        w).spool.manifests = Function.update w.spool.manifests
          ((newChunk plaintext mode w.vault).packId C)
          (some ((newChunk plaintext mode w.vault).manifest C)) := manifests_setShards _ _ _ _
    rw [hmanifests, Function.update_apply]
    rcases List.mem_append.mp hc with hold | hnew
    · by_cases hsame : c.packId C = (newChunk plaintext mode w.vault).packId C
      · rw [if_pos hsame, (manifest_of_packId_eq ideal hsame).2]
      · rw [if_neg hsame]
        exact h.manifests c hold hlocal
    · rw [List.mem_singleton.mp hnew, if_pos rfl]
  shards packId i b hb := by
    change (setShards _ 0 _ _).shards packId i = some b at hb
    rw [shards_setShards] at hb
    by_cases hnew : packId = (newChunk plaintext mode w.vault).packId C ∧ 0 ≤ i ∧
        i < 0 + (((newChunk plaintext mode w.vault).shardFiles C).take k).length
    · rw [if_pos hnew, Nat.sub_zero] at hb
      refine ⟨_, List.mem_append_right _ (List.mem_singleton_self _), hnew.1, ?_⟩
      rw [List.getElem?_take] at hb
      split at hb
      · exact hb
      · cases hb
    · rw [if_neg hnew] at hb
      obtain ⟨c, hc, hfile⟩ := h.shards packId i b hb
      exact ⟨c, List.mem_append_left _ hc, hfile⟩
  objects provider key b hb := by
    obtain ⟨c, hc, hfile⟩ := h.objects provider key b hb
    exact ⟨c, List.mem_append_left _ hc, hfile⟩
  downloads packId b hb := by
    obtain ⟨c, hc, hfile⟩ := h.downloads packId b hb
    exact ⟨c, List.mem_append_left _ hc, hfile⟩

/-! ## A reused pack -/

/-- A row of `packs` belongs to a stored chunk. -/
theorem TablesInv.exists_chunk {db : FileDb} (h : TablesInv C chunks db) {pack : PackRecord}
    (hpack : pack ∈ db.packs) : ∃ c ∈ chunks, pack.core = (c.record C).core := by
  have hmem : pack.core ∈ db.packs.map PackRecord.core := List.mem_map_of_mem hpack
  rw [h.packs] at hmem
  obtain ⟨c, hc, heq⟩ := List.mem_map.mp hmem
  exact ⟨c, hc, heq.symm⟩

/-- The pack that is found for a plaintext belongs to a chunk with that plaintext. -/
theorem TablesInv.packByPlaintextHash (ideal : C.Ideal) {db : FileDb} (h : TablesInv C chunks db)
    {plaintext : Bytes} {mode : StorageMode} {pack : PackRecord}
    (hfound : Db.packByPlaintextHash (C.sha256Hex plaintext) mode db = some pack) :
    ∃ c ∈ chunks, pack.core = (c.record C).core ∧ c.plaintext = plaintext ∧
      c.storageMode = mode := by
  have hmem := List.mem_of_mem_head? hfound
  rw [mem_orderBy, List.mem_filter] at hmem
  obtain ⟨c, hc, hcore⟩ := h.exists_chunk hmem.1
  have hcond := hmem.2
  simp only [Bool.and_eq_true, decide_eq_true_eq] at hcond
  have hhash : pack.plaintextHash = some (C.sha256Hex c.plaintext) := congrArg (·.plaintextHash) hcore
  have hmode : pack.storageMode = c.storageMode := congrArg (·.storageMode) hcore
  rw [hhash] at hcond
  exact ⟨c, hc, hcore, ideal.sha256Hex_inj (Option.some.inj hcond.1.1), hmode ▸ hcond.1.2⟩

/-- Reusing the pack of a stored chunk gives what belongs to the chunk. -/
theorem reusePack_eq (ideal : C.Ideal) {c : StoredChunk} {pack : PackRecord}
    (hcore : pack.core = (c.record C).core) (hfits : c.plaintext.length + 96 < 2 ^ 63)
    (fileOffset : ℤ) :
    reusePack (C.sha256Hex c.plaintext) c.storageMode fileOffset c.plaintext.length pack =
      .ok (c.prepared C fileOffset true) := by
  have hpackId : pack.packId = c.packId C := congrArg (·.packId) hcore
  have hchunkId : pack.chunkId = (c.chunkId C).bytes := congrArg (·.chunkId) hcore
  have hnonce : pack.nonce = (c.encrypted C).nonce.bytes := congrArg (·.nonce) hcore
  have htag : pack.gcmTag = (c.encrypted C).gcmTag.bytes := congrArg (·.gcmTag) hcore
  have hcipher : pack.cipherSize = (c.encrypted C).ciphertext.length := congrArg (·.cipherSize) hcore
  have hshard : pack.shardSize = c.shardSize C := congrArg (·.shardSize) hcore
  have hlength := c.length_ciphertext ideal
  have hsize : manifestSizeFromPack pack = .ok ((c.manifest C).length : ℤ) := by
    rw [manifestSizeFromPack, hcipher, if_pos (Int.natCast_nonneg _), Int.toNat_natCast, htag,
      FixedBytes.length_bytes, c.length_manifest, ChunkRecordPrefix.size]
    exact toI64_of_lt _ (by omega)
  have hstored : ∀ (n : ℕ) (b : FixedBytes n) (field : String),
      storedField n b.bytes field = .ok b := by
    intro n b field
    rw [storedField, FixedBytes.tryFrom_bytes]
  rw [reusePack, hsize, hchunkId, hnonce, htag, hpackId, hcipher, hshard]
  simp only [hstored, Prog.except_ok_bind]
  rfl

/-! ## All chunks of a file -/

/-- The prepared packs of these chunks from an offset on; the flag tells the reused ones. -/
def preparedFrom (C : ChunkPrimitives P) : ℤ → List (StoredChunk × Bool) → List PreparedPack
  | _, [] => []
  | offset, item :: rest =>
    item.1.prepared C offset item.2 :: preparedFrom C (offset + item.1.plaintext.length) rest

/-- The chunks that are not reused. -/
def newChunks (items : List (StoredChunk × Bool)) : List StoredChunk :=
  (items.filter fun item => !item.2).map Prod.fst

/-- The chunks that were prepared for these plaintexts, with `all` known before and `all'` after. -/
structure ItemsInv (mode : StorageMode) (chunks all all' : List StoredChunk)
    (plaintexts : List Bytes) (items : List (StoredChunk × Bool)) : Prop where
  plaintexts : items.map (fun item => item.1.plaintext) = plaintexts
  modes : ∀ item ∈ items, item.1.storageMode = mode
  reused : ∀ item ∈ items, item.2 = true → item.1 ∈ chunks
  new : ∀ item ∈ items, item.2 = false → item.1 ∈ all' ∧ item.1 ∉ all ∧
    item.1.plaintext.length + 96 < 2 ^ 63
  nodup : (newChunks items).Nodup

/-- A world with the same tables, in which keys and files have been added. -/
structure Spooled (C : ChunkPrimitives P) (known : Bytes → Prop) (cur vaultKey : P.Key)
    (all all' : List StoredChunk) (w w' : FileWorld P) : Prop where
  subset : ∀ c ∈ all, c ∈ all'
  files : FilesInv C known cur vaultKey all' w'
  db : w'.db = w.db
  draws : w.vault.draws ≤ w'.vault.draws

theorem Spooled.refl {w : FileWorld P} (h : FilesInv C known cur vaultKey all w) :
    Spooled C known cur vaultKey all all w w :=
  ⟨fun _ hc => hc, h, rfl, Nat.le_refl _⟩

theorem Spooled.trans {all₁ all₂ all₃ : List StoredChunk} {w₁ w₂ w₃ : FileWorld P}
    (h : Spooled C known cur vaultKey all₁ all₂ w₁ w₂)
    (h' : Spooled C known cur vaultKey all₂ all₃ w₂ w₃) :
    Spooled C known cur vaultKey all₁ all₃ w₁ w₃ where
  subset c hc := h'.subset c (h.subset c hc)
  files := h'.files
  db := h'.db.trans h.db
  draws := Nat.le_trans h.draws h'.draws

section Prepare

variable (ideal : C.Ideal) {db : FileDb} (htables : TablesInv C chunks db)
  (hfits : ∀ c ∈ chunks, c.plaintext.length + 96 < 2 ^ 63)
include ideal htables hfits

/-- One chunk is prepared by reusing a stored chunk or by making a new one. -/
theorem run_prepareChunk (inodeId : ℤ) (mode : StorageMode) (fileOffset : ℤ) {plaintext : Bytes}
    (hknown : known plaintext) {w : FileWorld P} (hdb : w.db = db)
    (hfiles : FilesInv C known cur vaultKey all w) : ∃ all',
      Spooled C known cur vaultKey all all' w
        ((prepareChunk C inodeId mode fileOffset plaintext).run w).2 ∧
      ∀ prepared, ((prepareChunk C inodeId mode fileOffset plaintext).run w).1 = .ok prepared →
        ∃ item : StoredChunk × Bool, prepared = item.1.prepared C fileOffset item.2 ∧
          ItemsInv mode chunks all all' [plaintext] [item] := by
  rw [prepareChunk]
  rcases hsize : toI64 plaintext.length "chunk size" with e | plainSize
  · exact ⟨all, .refl hfiles, fun prepared h => by cases h⟩
  obtain ⟨rfl, -⟩ := toI64_eq_ok hsize
  rw [Prog.ofExcept_ok, Prog.ret_bind, Db.findPackByPlaintextHash, run_selectFiles_bind, hdb]
  rcases hfound : Db.packByPlaintextHash (C.sha256Hex plaintext) mode db with _ | existing
  · obtain ⟨k, hstate, hok⟩ := run_newPack ideal hfiles.vault inodeId mode fileOffset plaintext
    have hnewFiles := hfiles.packSpooled ideal inodeId mode hknown k
    refine ⟨all ++ [newChunk plaintext mode w.vault], ⟨?_, ?_, ?_, ?_⟩, fun prepared h => ?_⟩
    · exact fun c hc => List.mem_append_left _ hc
    · rw [hstate]
      exact hnewFiles
    · rw [hstate]
      exact hdb ▸ rfl
    · rw [hstate]
      exact Nat.le_add_right _ 2
    · obtain ⟨hprepared, hlen⟩ := hok prepared h
      refine ⟨(newChunk plaintext mode w.vault, false), hprepared, ?_⟩
      constructor
      · rfl
      · intro item hitem
        rw [List.mem_singleton.mp hitem]
        rfl
      · intro item hitem hreused
        rw [List.mem_singleton.mp hitem] at hreused
        cases hreused
      · intro item hitem _
        rw [List.mem_singleton.mp hitem]
        refine ⟨List.mem_append_right _ (List.mem_singleton_self _), fun hold => ?_, hlen⟩
        exact Nat.lt_irrefl _ (hfiles.drawn _ hold)
      · exact List.nodup_singleton _
  · obtain ⟨c, hc, hcore, hplain, hmode⟩ := htables.packByPlaintextHash ideal hfound
    have hreuse := reusePack_eq ideal hcore (hfits c hc) fileOffset
    rw [hplain, hmode] at hreuse
    simp only [hreuse]
    refine ⟨all, .refl hfiles, fun prepared h => ⟨(c, true), ?_, ?_⟩⟩
    · cases h
      rfl
    · constructor
      · rw [List.map_singleton, hplain]
      · intro item hitem
        rw [List.mem_singleton.mp hitem]
        exact hmode
      · intro item hitem _
        rw [List.mem_singleton.mp hitem]
        exact hc
      · intro item hitem hnew
        rw [List.mem_singleton.mp hitem] at hnew
        cases hnew
      · exact List.nodup_nil

omit ideal htables hfits in
/-- The items of a first chunk and of the chunks after it. -/
theorem ItemsInv.cons {mode : StorageMode} {all₁ all₂ : List StoredChunk} {plaintext : Bytes}
    {rest : List Bytes} {item : StoredChunk × Bool} {items : List (StoredChunk × Bool)}
    (h : ItemsInv mode chunks all all₁ [plaintext] [item])
    (h' : ItemsInv mode chunks all₁ all₂ rest items) (hsub : ∀ c ∈ all, c ∈ all₁)
    (hsub' : ∀ c ∈ all₁, c ∈ all₂) :
    ItemsInv mode chunks all all₂ (plaintext :: rest) (item :: items) where
  plaintexts := by
    have hhead : item.1.plaintext = plaintext := (List.cons.inj h.plaintexts).1
    rw [List.map_cons, hhead, h'.plaintexts]
  modes i hi := by
    rcases List.mem_cons.mp hi with hhead | htail
    · exact h.modes i (hhead ▸ List.mem_singleton_self _)
    · exact h'.modes i htail
  reused i hi hreused := by
    rcases List.mem_cons.mp hi with hhead | htail
    · exact h.reused i (hhead ▸ List.mem_singleton_self _) hreused
    · exact h'.reused i htail hreused
  new i hi hnew := by
    rcases List.mem_cons.mp hi with hhead | htail
    · have hitem := h.new i (hhead ▸ List.mem_singleton_self _) hnew
      exact ⟨hsub' _ hitem.1, hitem.2⟩
    · have hitem := h'.new i htail hnew
      exact ⟨hitem.1, fun hold => hitem.2.1 (hsub _ hold), hitem.2.2⟩
  nodup := by
    rcases hflag : item.2 with _ | _
    · have hsplit : newChunks (item :: items) = item.1 :: newChunks items := by
        simp [newChunks, hflag]
      rw [hsplit, List.nodup_cons]
      refine ⟨fun hmem => ?_, h'.nodup⟩
      obtain ⟨i, hi, heq⟩ := List.mem_map.mp hmem
      rw [List.mem_filter] at hi
      have hfresh := (h'.new i hi.1 (by simpa using hi.2)).2.1
      rw [heq] at hfresh
      exact hfresh (h.new item (List.mem_singleton_self _) hflag).1
    · have hsplit : newChunks (item :: items) = newChunks items := by
        simp [newChunks, hflag]
      rw [hsplit]
      exact h'.nodup

/-- All chunks of a file are prepared in order. -/
theorem run_prepareChunks (inodeId : ℤ) (mode : StorageMode) (fileOffset : ℤ)
    {plaintexts : List Bytes} (hknown : ∀ p ∈ plaintexts, known p) {w : FileWorld P}
    (hdb : w.db = db) (hfiles : FilesInv C known cur vaultKey all w) : ∃ all',
      Spooled C known cur vaultKey all all' w
        ((prepareChunks C inodeId mode fileOffset plaintexts).run w).2 ∧
      ∀ prepared, ((prepareChunks C inodeId mode fileOffset plaintexts).run w).1 = .ok prepared →
        ∃ items, prepared = preparedFrom C fileOffset items ∧
          ItemsInv mode chunks all all' plaintexts items := by
  induction plaintexts generalizing all w fileOffset with
  | nil =>
    refine ⟨all, .refl hfiles, fun prepared h => ⟨[], ?_, ?_⟩⟩
    · cases h
      rfl
    · exact ⟨rfl, by simp, by simp, by simp, List.nodup_nil⟩
  | cons plaintext rest ih =>
    obtain ⟨all₁, hspooled, hitem⟩ := run_prepareChunk ideal htables hfits inodeId mode fileOffset
      (hknown plaintext List.mem_cons_self) hdb hfiles
    rw [prepareChunks]
    rcases hrun : (prepareChunk C inodeId mode fileOffset plaintext).run w with ⟨e | prepared, t⟩
    · rw [hrun] at hspooled
      rw [Prog.run_bind_of_error hrun]
      exact ⟨all₁, hspooled, fun prepared h => by cases h⟩
    rw [hrun] at hspooled hitem
    obtain ⟨item, hprepared, hinv⟩ := hitem prepared rfl
    have hplain : item.1.plaintext = plaintext := (List.cons.inj hinv.plaintexts).1
    have hsize : prepared.plainSize = item.1.plaintext.length := by rw [hprepared]; rfl
    rw [Prog.run_bind_of_ok hrun, hsize]
    rcases hadd : checkedAddI64 fileOffset item.1.plaintext.length "file offset" with e | next
    · exact ⟨all₁, hspooled, fun prepared h => by cases h⟩
    have hnext : next = fileOffset + item.1.plaintext.length := by
      unfold checkedAddI64 at hadd
      split at hadd
      · cases hadd
        rfl
      · cases hadd
    rw [Prog.ofExcept_ok, Prog.ret_bind, hnext]
    obtain ⟨all₂, hspooled', hitems⟩ := ih (fileOffset + item.1.plaintext.length)
      (fun p hp => hknown p (List.mem_cons_of_mem _ hp)) (hspooled.db.trans hdb) hspooled.files
    rcases hrest : (prepareChunks C inodeId mode (fileOffset + item.1.plaintext.length) rest).run t
      with ⟨e | tail, t'⟩
    · rw [hrest] at hspooled'
      rw [Prog.run_bind_of_error hrest]
      exact ⟨all₂, hspooled.trans hspooled', fun prepared h => by cases h⟩
    · rw [hrest] at hspooled' hitems
      rw [Prog.run_bind_of_ok hrest]
      obtain ⟨items, htail, hinv'⟩ := hitems tail rfl
      refine ⟨all₂, hspooled.trans hspooled', fun all h => ⟨item :: items, ?_, ?_⟩⟩
      · cases h
        rw [htail, hprepared]
        rfl
      · exact hinv.cons hinv' hspooled.subset hspooled'.subset

end Prepare

end OmniDrive
