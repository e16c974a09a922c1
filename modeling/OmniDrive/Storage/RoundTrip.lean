import Mathlib.Tactic.IntervalCases
import OmniDrive.Crypto.SymbolicChunks
import OmniDrive.Storage.RestoreOutcome
import OmniDrive.Storage.Uploader

/-!
# Packing and restoring

A store grows from an empty one by packing files, uploading packs and editing the tree of files.
A file that was packed is restored to its bytes, unless it has none.
-/

namespace OmniDrive

open StatementProgram Tables ByteFields Packer Downloader Uploader

variable {P : Primitives} (C : ChunkPrimitives P)

/-- What happens to a store: a file is packed, a pack is uploaded, or files, policies and the clock
change. -/
inductive StoreOp where
  | pack (config : PackerConfig) (inodeId : ℤ) (source : Bytes) (expected : Option ℤ)
  | upload (answer : PackShardRecord → ShardAnswer) (packId : String)
  | edit (inodes : List InodeRecord) (inodeSequence : ℤ) (policyTypes : ℤ → Option String) (now : ℤ)

namespace StoreOp

/-- The store after one operation, successful or not. -/
def step (op : StoreOp) (w : FileWorld P) : FileWorld P :=
  match op with
  | .pack config inodeId source expected =>
    ((packFileWithExpectedParent C config inodeId source expected).run w).2
  | .upload answer packId => ((processJob answer packId).run w).2
  | .edit inodes inodeSequence policyTypes now =>
    { w with db := { w.db with inodes, inodeSequence, policyTypes }, now }

/-- The chunks of the file that an operation packs. -/
def pieces : StoreOp → List Bytes
  | .pack config _ source _ => piecesOf config.chunkSize source.length source
  | _ => []

/-- The store after a history. -/
def run (ops : List StoreOp) (w : FileWorld P) : FileWorld P :=
  ops.foldl (fun w op => op.step C w) w

end StoreOp

/-- A store without files. -/
def FileWorld.fresh (vault : VaultWorld P) : FileWorld P := { vault }

/-- The store after some packs have been uploaded, in whatever order. -/
def uploadAll (jobs : List ((PackShardRecord → ShardAnswer) × String)) (w : FileWorld P) :
    FileWorld P :=
  jobs.foldl (fun w job => ((processJob job.1 job.2).run w).2) w

/-- Every pack of a file is local, is downloaded already, or has enough shards that are uploaded and
can be fetched. -/
def EnoughShards (net : Network) (inodeId : ℤ) (w : FileWorld P) : Prop :=
  ∀ location ∈ Db.locateAll w.db (Db.currentRefs inodeId w.db), ∀ pack,
    Db.packOf location.packId w.db = some pack → pack.storageMode = .localOnly ∨
      (w.downloads location.packId).isSome = true ∨ requiredShards pack.storageMode ≤
        (Db.shardsOf location.packId w.db).countP (Available net w)

variable {C} {known : Bytes → Prop} {cur vaultKey : P.Key} {all chunks : List StoredChunk}

/-! ## Histories -/

/-- A store without files is in order. -/
theorem StoreInv.fresh {vault : VaultWorld P} (hopen : VaultOpen cur vaultKey vault) :
    StoreInv C known cur vaultKey [] [] (FileWorld.fresh vault) where
  files := by
    constructor
    · exact hopen
    · simp
    · simp
    · simp
    · simp
    · simp
    · simp [FileWorld.fresh]
    · simp [FileWorld.fresh]
    · simp [FileWorld.fresh]
  tables := ⟨rfl, rfl, rfl, rfl⟩
  revisions := by
    constructor
    · simp [FileWorld.fresh]
    · simp [FileWorld.fresh]
    · simp [FileWorld.fresh]
    · simp [FileWorld.fresh]
  subset := by simp
  nodup := List.nodup_nil
  fits := by simp

/-- An upload keeps the store in order, and its vault, files and references as they were. -/
theorem UploadKept.refl {w : FileWorld P} (h : StoreInv C known cur vaultKey all chunks w) :
    UploadKept C known cur vaultKey all chunks w w := ⟨h, rfl, rfl, rfl, rfl⟩

/-- Uploads keep the store in order. -/
theorem uploadAll_kept (ideal : C.Ideal) {start : FileWorld P}
    (jobs : List ((PackShardRecord → ShardAnswer) × String)) {w : FileWorld P}
    (h : UploadKept C known cur vaultKey all chunks start w) :
    UploadKept C known cur vaultKey all chunks start (uploadAll jobs w) := by
  induction jobs generalizing w with
  | nil => exact h
  | cons job rest ih => exact ih ((keeps_processJob ideal job.1 job.2).run h)

/-- A change of files and policies keeps the store in order. -/
theorem StoreInv.edit {w : FileWorld P} (h : StoreInv C known cur vaultKey all chunks w)
    (inodes : List InodeRecord) (inodeSequence : ℤ) (policyTypes : ℤ → Option String) (now : ℤ) :
    StoreInv C known cur vaultKey all chunks
      { w with db := { w.db with inodes, inodeSequence, policyTypes }, now } where
  files := by
    obtain ⟨hvault, hdrawn, hdistinct, hknown, hdeks, hmanifests, hshards, hobjects, hdownloads⟩ :=
      h.files
    exact ⟨hvault, hdrawn, hdistinct, hknown, hdeks, hmanifests, hshards, hobjects, hdownloads⟩
  tables := ⟨h.tables.packs, h.tables.locations, h.tables.bindings, h.tables.shards⟩
  revisions := ⟨h.revisions.revisionIds, h.revisions.refIds, h.revisions.nodup,
    h.revisions.described⟩
  subset := h.subset
  nodup := h.nodup
  fits := h.fits

/-- An operation takes no draw back. -/
theorem StoreOp.draws_le (op : StoreOp) (w : FileWorld P) :
    w.vault.draws ≤ (op.step C w).vault.draws := by
  cases op with
  | pack config inodeId source expected =>
    exact (keeps_packFileWithExpectedParent config inodeId source expected w.vault.draws).run
      (Nat.le_refl _)
  | upload answer packId =>
    exact (keeps_vault_processJob (fun vault => w.vault.draws ≤ vault.draws) answer packId).run
      (s := w) (Nat.le_refl _)
  | edit inodes inodeSequence policyTypes now => exact Nat.le_refl _

/-- Neither does a history. -/
theorem StoreOp.draws_le_run (ops : List StoreOp) (w : FileWorld P) :
    w.vault.draws ≤ (StoreOp.run C ops w).vault.draws := by
  induction ops generalizing w with
  | nil => exact Nat.le_refl _
  | cons op rest ih => exact Nat.le_trans (op.draws_le w) (ih (op.step C w))

/-- A history keeps the store in order. -/
theorem StoreInv.run {n : ℕ} (ideal : C.Ideal) (hfree : C.CollisionFree n known)
    (ops : List StoreOp) {w : FileWorld P} (h : StoreInv C known cur vaultKey all chunks w)
    (hknown : ∀ op ∈ ops, ∀ p ∈ op.pieces, known p)
    (hdraws : (StoreOp.run C ops w).vault.draws ≤ n) :
    ∃ all' chunks', StoreInv C known cur vaultKey all' chunks' (StoreOp.run C ops w) := by
  induction ops generalizing all chunks w with
  | nil => exact ⟨all, chunks, h⟩
  | cons op rest ih =>
    have hstep : ∃ all' chunks', StoreInv C known cur vaultKey all' chunks' (op.step C w) := by
      cases op with
      | pack config inodeId source expected =>
        obtain ⟨all', chunks', t, ht, hstore, -, -⟩ := run_packFileWithExpectedParent ideal hfree h
          config inodeId expected (hknown _ List.mem_cons_self)
          (Nat.le_trans (StoreOp.draws_le_run rest _) hdraws)
        have hstep : (StoreOp.pack config inodeId source expected).step C w = t := ht
        rw [hstep]
        exact ⟨all', chunks', hstore⟩
      | upload answer packId =>
        exact ⟨all, chunks, ((keeps_processJob ideal answer packId).run (UploadKept.refl h)).store⟩
      | edit inodes inodeSequence policyTypes now =>
        exact ⟨all, chunks, h.edit inodes inodeSequence policyTypes now⟩
    obtain ⟨all', chunks', hstore⟩ := hstep
    exact ih hstore (fun o ho => hknown o (List.mem_cons_of_mem _ ho)) hdraws

/-! ## Restoring a packed file -/

/-- The chunks of the current revision of a packed file. -/
theorem FilePacked.currentRefs {inodeId revisionId : ℤ} {content : Bytes} {cs : List StoredChunk}
    {db : FileDb} (h : FilePacked C inodeId revisionId content cs db) :
    Db.currentRefs inodeId db = refRows revisionId db := by
  apply List.filter_congr
  intro cr _
  obtain ⟨fr, hfr, hid, hinode, hcurrent⟩ := h.current
  by_cases hown : cr.revisionId = revisionId
  · have hany : db.fileRevisions.any fun fr => fr.revisionId = cr.revisionId &&
        fr.inodeId = inodeId && fr.isCurrent := by
      rw [List.any_eq_true]
      exact ⟨fr, hfr, by simp [hid, hinode, hcurrent, hown]⟩
    rw [hany, decide_eq_true hown]
  · have hnone : (db.fileRevisions.any fun fr => fr.revisionId = cr.revisionId &&
        fr.inodeId = inodeId && fr.isCurrent) = false := by
      rw [List.any_eq_false]
      intro other hother hall
      simp only [Bool.and_eq_true, decide_eq_true_eq] at hall
      exact hown (hall.1.1.symm.trans (h.only other hother hall.1.2 hall.2))
    rw [hnone, decide_eq_false hown]

/-- Restoring a packed file writes its bytes if it has any, and refuses an empty one. -/
theorem run_restoreFile (keys : P.Ideal) (ideal : C.Ideal) (separate : Separate C all)
    {net : Network} {w : FileWorld P} (hstore : StoreInv C known cur vaultKey all chunks w)
    {inodeId revisionId : ℤ} {content : Bytes} {cs : List StoredChunk}
    (hcs : ∀ c ∈ cs, c ∈ chunks) (hpacked : FilePacked C inodeId revisionId content cs w.db)
    (henough : EnoughShards net inodeId w) :
    (content = [] → ((restoreFile C net inodeId).run w).1 = .error (.noChunksForInode inodeId)) ∧
      (content ≠ [] → ∃ result, ((restoreFile C net inodeId).run w).1 = .ok result ∧
        result.output = content ∧ result.bytesWritten = content.length) := by
  have hkey : (onVault DownloaderError.vault VaultKeyStore.vaultKeyForV1Read).run w =
      (.ok vaultKey, w) := by
    rw [run_onVault, hstore.files.vault.v1]
    rfl
  have hlocations : Db.locateAll w.db (Db.currentRefs inodeId w.db) = locationsFrom C 0 0 cs := by
    rw [hpacked.currentRefs]
    exact locateAll_eq separate hstore.tables hstore.subset hcs hpacked.refs
  have hobtain : ∀ c ∈ cs, Obtainable C net w c := by
    intro c hc
    have hmem : ∃ index offset, c.locationAt C index offset ∈ locationsFrom C 0 0 cs := by
      clear hlocations hpacked hcs
      generalize (0 : ℕ) = index
      generalize (0 : ℤ) = offset
      induction cs generalizing index offset with
      | nil => cases hc
      | cons c' cs ih =>
        rcases List.mem_cons.mp hc with hhead | htail
        · rw [hhead]
          exact ⟨index, offset, List.mem_cons_self⟩
        · obtain ⟨i, o, hmem⟩ := ih htail (index + 1) (offset + c'.plaintext.length)
          exact ⟨i, o, List.mem_cons_of_mem _ hmem⟩
    obtain ⟨index, offset, hmem⟩ := hmem
    obtain ⟨pack, hpack, hcore⟩ := find?_pack separate hstore.tables hstore.subset (hcs c hc)
    have hmode : pack.storageMode = c.storageMode := congrArg (·.storageMode) hcore
    have hobtained := henough _ (hlocations ▸ hmem) pack hpack
    rw [hmode] at hobtained
    exact hobtained
  have hsize : plainSize cs = content.length := by rw [plainSize_eq_length, hpacked.bytes]
  rw [restoreFile, Prog.run_bind_of_ok hkey, Db.getFileChunkLocations, run_selectFiles_bind,
    hlocations]
  cases cs with
  | nil =>
    have hempty : content = [] := hpacked.bytes.symm
    exact ⟨fun _ => rfl, fun hne => absurd hempty hne⟩
  | cons c cs =>
    have hne : content ≠ [] := by
      intro hempty
      rw [hempty] at hsize
      have hplain := (hstore.fits c (hcs c List.mem_cons_self)).1
      have hlength : plainSize (c :: cs) = c.plaintext.length + plainSize cs := by simp [plainSize]
      have hpos := List.length_pos_of_ne_nil hplain
      rw [List.length_nil] at hsize
      omega
    refine ⟨fun hempty => absurd hempty hne, fun _ => ?_⟩
    have hstart : Restoring C known cur vaultKey all chunks w [] w := by
      refine ⟨hstore, ⟨w.downloads, rfl⟩, fun _ h => h, ?_⟩
      intro c' _ source hlookup
      cases hlookup
    obtain ⟨downloaded, w', hrun, -⟩ := run_restoreChunks keys ideal separate vaultKey hcs hobtain 0
      [] (by rw [hsize, List.length_nil, Nat.zero_add]; exact hpacked.fits) hstart
    have hchunks : (locationsFrom C 0 0 (c :: cs)).isEmpty = false := rfl
    simp only [hchunks, Bool.false_eq_true, if_false]
    have hrun' : (restoreChunks C net vaultKey {} [] (locationsFrom C 0 0 (c :: cs))).run w =
        (.ok (⟨content, content.length⟩, downloaded), w') := by
      rw [← hpacked.bytes]
      exact hrun
    rw [Prog.run_bind_of_ok hrun']
    exact ⟨_, rfl, rfl, rfl⟩

/-- Uploads keep the chunks of a file. -/
theorem FilePacked.of_uploadKept {start w : FileWorld P} {inodeId revisionId : ℤ} {content : Bytes}
    {cs : List StoredChunk} (hfile : FilePacked C inodeId revisionId content cs start.db)
    (hkept : UploadKept C known cur vaultKey all chunks start w) :
    FilePacked C inodeId revisionId content cs w.db := by
  refine ⟨?_, ?_, ?_, hfile.bytes, hfile.fits⟩
  · rw [hkept.fileRevisions]
    exact hfile.current
  · rw [hkept.fileRevisions]
    exact hfile.only
  · rw [refRows, hkept.chunkRefs]
    exact hfile.refs

/-- A file that is packed after any history is stored in chunks that are told apart. -/
theorem storeInv_packed (ideal : C.Ideal) {vault : VaultWorld P}
    (hopen : VaultOpen cur vaultKey vault) (history : List StoreOp) (config : PackerConfig)
    (inodeId : ℤ) (content : Bytes) (expected : Option ℤ) {result : PackResult}
    (hok : ((packFileWithExpectedParent C config inodeId content expected).run
      (StoreOp.run C history (.fresh vault))).1 = .ok result) {t : FileWorld P}
    (ht : (StoreOp.pack config inodeId content expected).step C
      (StoreOp.run C history (.fresh vault)) = t)
    (hpieces : ∀ op ∈ history ++ [StoreOp.pack config inodeId content expected],
      ∀ p ∈ op.pieces, known p) (hfree : C.CollisionFree t.vault.draws known) :
    ∃ all chunks cs, StoreInv C known cur vaultKey all chunks t ∧ Separate C all ∧
      (∀ c ∈ cs, c ∈ chunks) ∧ FilePacked C inodeId result.revisionId content cs t.db := by
  subst ht
  have hbound := StoreOp.draws_le (C := C) (.pack config inodeId content expected)
    (StoreOp.run C history (.fresh vault))
  obtain ⟨all₁, chunks₁, hstore₁⟩ := StoreInv.run ideal hfree history (StoreInv.fresh hopen)
    (fun op hop => hpieces op (List.mem_append_left _ hop)) hbound
  obtain ⟨all, chunks, t, ht, hstore, -, hpacked⟩ := run_packFileWithExpectedParent ideal hfree
    hstore₁ config inodeId expected
    (hpieces _ (List.mem_append_right _ (List.mem_singleton_self _))) (Nat.le_refl _)
  have hstep : (StoreOp.pack config inodeId content expected).step C
      (StoreOp.run C history (.fresh vault)) = t := ht
  obtain ⟨cs, hcs, hfile⟩ := hpacked result hok
  rw [hstep] at hfree ⊢
  have hseparate : Separate C all := separate_of_collisionFree ideal hfree hstore.files.known
    hstore.files.drawn hstore.files.distinct
  exact ⟨all, chunks, cs, hstore, hseparate, hcs, hfile⟩

/-- After a file was packed and enough of its shards were uploaded, restoring it writes exactly its
bytes if and only if it has any. -/
theorem restoreFile_packed_iff (keys : P.Ideal) (ideal : C.Ideal) {vault : VaultWorld P}
    (hopen : VaultOpen cur vaultKey vault) (history : List StoreOp) (config : PackerConfig)
    (inodeId : ℤ) (content : Bytes) (expected : Option ℤ) {result : PackResult}
    (hok : ((packFileWithExpectedParent C config inodeId content expected).run
      (StoreOp.run C history (.fresh vault))).1 = .ok result)
    (hfree : C.CollisionFree ((StoreOp.pack config inodeId content expected).step C
        (StoreOp.run C history (.fresh vault))).vault.draws
      fun p => ∃ op ∈ history ++ [.pack config inodeId content expected], p ∈ op.pieces)
    (jobs : List ((PackShardRecord → ShardAnswer) × String)) (net : Network)
    (henough : EnoughShards net inodeId (uploadAll jobs
      ((StoreOp.pack config inodeId content expected).step C
        (StoreOp.run C history (.fresh vault))))) :
    (∃ restored, ((restoreFile C net inodeId).run (uploadAll jobs
        ((StoreOp.pack config inodeId content expected).step C
          (StoreOp.run C history (.fresh vault))))).1 = .ok restored ∧
      restored.output = content) ↔ content ≠ [] := by
  obtain ⟨all, chunks, cs, hstore, hseparate, hcs, hfile⟩ := storeInv_packed ideal hopen history
    config inodeId content expected hok rfl (fun op hop p hp => ⟨op, hop, hp⟩) hfree
  have hkept := uploadAll_kept ideal jobs (UploadKept.refl hstore)
  have hfile' := hfile.of_uploadKept hkept
  obtain ⟨hempty, hrestored⟩ := run_restoreFile keys ideal hseparate hkept.store hcs hfile' henough
  constructor
  · intro h heq
    obtain ⟨restored, hrun, -⟩ := h
    rw [hempty heq] at hrun
    cases hrun
  · intro hne
    obtain ⟨restored, hrun, houtput, -⟩ := hrestored hne
    exact ⟨restored, hrun, houtput⟩

/-! ## An empty file and a file of one byte -/

/-- An unlocked vault with an envelope key and no V1 read key. -/
def openVault : VaultWorld symbolic :=
  { db := {}
    inner := some (.withEnvelopeKey (.random 100) (.random 101) (.random 102))
    draws := 0 }

/-- Every file is kept on this device only. -/
def keepLocal : StoreOp := .edit [] 0 (fun _ => some "LOCAL") 0

/-- No provider is configured. -/
def offline : Network :=
  { configured := fun _ => false
    latency := fun _ _ => none
    delivers := fun _ _ => false
    message := fun _ _ => "" }

def fourByteChunks : PackerConfig := ⟨4, by decide⟩

theorem openVault_open : VaultOpen (P := symbolic) (SymbolicKey.random 102) (.random 101)
    openVault where
  envelope := rfl
  v1 := rfl
  deks := by simp [openVault]

/-- A file of one byte is restored. -/
theorem restoreFile_oneByte :
    ∃ restored, ((restoreFile symbolicChunks offline 1).run (uploadAll []
        ((StoreOp.pack fourByteChunks 1 [7] none).step symbolicChunks
          (StoreOp.run symbolicChunks [keepLocal] (.fresh openVault))))).1 = .ok restored ∧
      restored.output = [7] := by
  have hpieces : ∀ p, (∃ op ∈ [keepLocal] ++ [StoreOp.pack fourByteChunks 1 [7] none],
      p ∈ op.pieces) → p = [7] := by
    intro p h
    obtain ⟨op, hop, hp⟩ := h
    simp only [List.cons_append, List.nil_append, List.mem_cons, List.not_mem_nil, or_false] at hop
    rcases hop with hedit | hpack
    · rw [hedit] at hp
      cases hp
    · rw [hpack] at hp
      exact List.mem_singleton.mp hp
  apply (restoreFile_packed_iff symbolic_ideal symbolicChunks_ideal openVault_open [keepLocal]
    fourByteChunks 1 [7] none rfl ?_ [] offline ?_).mpr (by decide)
  · intro i j p q hi hj hp hq h
    rw [hpieces p hp, hpieces q hq] at h ⊢
    have hi' : i < 2 := hi
    have hj' : j < 2 := hj
    refine ⟨?_, rfl⟩
    interval_cases i <;> interval_cases j <;> first | rfl | exact absurd h (by decide)
  · intro location hlocation pack hpack
    left
    have hlocal : ∀ pack ∈ ((StoreOp.pack fourByteChunks 1 [7] none).step symbolicChunks
        (StoreOp.run symbolicChunks [keepLocal] (.fresh openVault))).db.packs,
        pack.storageMode = .localOnly := by decide
    exact hlocal pack (List.mem_of_find?_eq_some hpack)

/-- An empty file is packed, and not restored. -/
theorem restoreFile_empty_fails :
    (∃ result, ((packFileWithExpectedParent symbolicChunks fourByteChunks 1 [] none).run
      (.fresh openVault)).1 = .ok result) ∧
    ¬ ∃ restored, ((restoreFile symbolicChunks offline 1).run
      ((StoreOp.pack fourByteChunks 1 [] none).step symbolicChunks (.fresh openVault))).1 =
        .ok restored := by
  constructor
  · exact ⟨_, rfl⟩
  · intro h
    obtain ⟨restored, h⟩ := h
    have hrefused : ((restoreFile symbolicChunks offline 1).run
        ((StoreOp.pack fourByteChunks 1 [] none).step symbolicChunks (.fresh openVault))).1 =
          .error (.noChunksForInode 1) := rfl
    rw [hrefused] at h
    cases h

end OmniDrive
