import OmniDrive.Storage.AddressedRestores
import OmniDrive.Storage.ModeCopies

/-!
# Changes of the storage mode

The daemon goes on around the stored files: passes of the repair worker, uploads, changes of
policies and restorations, each stopped anywhere. A file is restored as long as its chunks are where
they were packed. Once the worker has let a chunk point at a copy in another storage mode, no
network restores the file.
-/

namespace OmniDrive

open StatementProgram Packer Downloader

variable {P : Primitives} {C : ChunkPrimitives P} {origin : Bytes → PackContent}
  {start : FileWorld P}

/-! ## The daemon goes on -/

/-- What goes on around the stored files. A pass of the repair worker, an upload job and a
restoration are stopped after some statements. -/
inductive StorageEvent where
  | repairStart
  | repairPass (net : RepairNetwork) (statements : ℕ)
  | upload (answer : PackShardRecord → ShardAnswer) (packId : String) (statements : ℕ)
  | policies (policyTypes : ℤ → Option String) (requireHealthy : ℤ → Option ℤ) (now : ℤ)
  | restore (net : Network) (inodeId : ℤ) (statements : ℕ)

namespace StorageEvent

variable (C) (retryDelayMs : ℤ)

def step (event : StorageEvent) (t : RepairWorld P) : RepairWorld P :=
  match event with
  | .repairStart =>
    t.withFiles ((RepairWorker.resetInProgressPackShards :
      FileProg P ReconcileError Unit).run t.files).2
  | .repairPass net statements =>
    (RepairWorker.workerPass C net retryDelayMs : RepairProg P ReconcileError Unit).cut statements t
  | .upload answer packId statements =>
    t.withFiles ((Uploader.processJob answer packId).cut statements t.files)
  | .policies policyTypes requireHealthy now =>
    { t with
      files := { t.files with db := { t.files.db with policyTypes }, now }
      requireHealthy }
  | .restore net inodeId statements =>
    t.withFiles ((restoreFile C net inodeId).cut statements t.files)

def run (events : List StorageEvent) (t : RepairWorld P) : RepairWorld P :=
  events.foldl (fun t event => event.step C retryDelayMs t) t

variable {C} {retryDelayMs} {vaultKey : P.Key}

/-- An event keeps the storage addressed by content, wherever it stops. -/
theorem addressed_step (ideal : C.Ideal)
    (hkey : VaultKeyStore.vaultKeyForV1Read.run start.vault = (.ok vaultKey, start.vault))
    (event : StorageEvent) {t : RepairWorld P} (h : Addressed C origin start t.files) :
    Addressed C origin start (event.step C retryDelayMs t).files := by
  cases event with
  | repairStart =>
    exact (RepairWorker.keeps_resetInProgressPackShards (ε := ReconcileError)).run h
  | repairPass net statements =>
    exact (RepairWorker.ensures_workerPass ideal h).cut h statements
  | upload answer packId statements =>
    exact (Uploader.addressed_processJob ideal answer packId).cut statements h
  | policies policyTypes requireHealthy now =>
    exact h.congr (h.kept.congr rfl rfl rfl rfl rfl) rfl rfl rfl rfl rfl rfl
  | restore net inodeId statements =>
    exact (ensures_restoreFile ideal hkey inodeId h).cut h statements

/-- So does a run. -/
theorem addressed_run (ideal : C.Ideal)
    (hkey : VaultKeyStore.vaultKeyForV1Read.run start.vault = (.ok vaultKey, start.vault))
    (events : List StorageEvent) {t : RepairWorld P} (h : Addressed C origin start t.files) :
    Addressed C origin start (run C retryDelayMs events t).files := by
  induction events generalizing t with
  | nil => exact h
  | cons event rest ih => exact ih (addressed_step ideal hkey event h)

end StorageEvent

/-- The storage right after a file was packed. -/
def packedStore (C : ChunkPrimitives P) (vault : VaultWorld P) (history : List StoreOp)
    (config : PackerConfig) (inodeId : ℤ) (content : Bytes) (expected : Option ℤ) : FileWorld P :=
  (StoreOp.pack config inodeId content expected).step C (StoreOp.run C history (.fresh vault))

/-- After any history and any events around it, a packed file is restored from enough shards as long
as its chunks are where they were packed, and no network restores it once one of them was moved to
another storage mode. -/
theorem restoreFile_modeChanges (keys : P.Ideal) (ideal : C.Ideal) {vault : VaultWorld P}
    {cur vaultKey : P.Key} (hopen : VaultOpen cur vaultKey vault) (history : List StoreOp)
    (config : PackerConfig) (inodeId : ℤ) (content : Bytes) (expected : Option ℤ)
    {result : PackResult} (hok : ((packFileWithExpectedParent C config inodeId content expected).run
      (StoreOp.run C history (.fresh vault))).1 = .ok result)
    (hfree : C.CollisionFree
      (packedStore C vault history config inodeId content expected).vault.draws
      fun p => ∃ op ∈ history ++ [.pack config inodeId content expected], p ∈ op.pieces)
    (hforeign : ∀ i < (packedStore C vault history config inodeId content expected).vault.draws,
      ∀ p, (∃ op ∈ history ++ [.pack config inodeId content expected], p ∈ op.pieces) →
        (encryptChunkV2 C (P.randomKey i) (i + 1) p []).ForeignTo C vaultKey)
    (retryDelayMs : ℤ) (events : List StorageEvent) {t : RepairWorld P}
    (hstart : t.files = packedStore C vault history config inodeId content expected) :
    (∀ net restored, ((restoreFile C net inodeId).run
        (StorageEvent.run C retryDelayMs events t).files).1 = .ok restored →
      Unmoved inodeId t.files.db (StorageEvent.run C retryDelayMs events t).files.db) ∧
    (Unmoved inodeId t.files.db (StorageEvent.run C retryDelayMs events t).files.db →
      content ≠ [] → ∀ net, EnoughShards net inodeId
        (StorageEvent.run C retryDelayMs events t).files →
      ∃ restored, ((restoreFile C net inodeId).run
        (StorageEvent.run C retryDelayMs events t).files).1 = .ok restored ∧
          restored.output = content) := by
  rw [← hstart] at hfree hforeign
  obtain ⟨all, chunks, cs, hstore, hseparate, hcs, hfile⟩ := storeInv_packed ideal hopen history
    config inodeId content expected hok hstart.symm (fun op hop p hp => ⟨op, hop, hp⟩) hfree
  have hkey := hstore.files.vault.v1
  have haddressed : Addressed C (contentOf C chunks) t.files
      (StorageEvent.run C retryDelayMs events t).files :=
    StorageEvent.addressed_run ideal hkey events (hstore.addressed ideal hseparate)
  constructor
  · intro net restored hrun
    have hensures : (restoreFile C net inodeId).Ensures _ _ _ :=
      ensures_restoreFile ideal hkey inodeId haddressed
    have hreadable := (hensures.run (Prod.ext hrun rfl)).2
    refine unmoved_of_readable hseparate hstore haddressed (fun c hc => ?_) hreadable
    have hmem := hstore.subset c hc
    exact hforeign c.keyDraw (hstore.files.drawn c hmem) c.plaintext (hstore.files.known c hmem)
  · intro hsame hne net henough
    exact run_restoreFile_unmoved keys ideal hseparate hstore haddressed hcs hfile hsame henough
      hne

/-! ## A file that the worker moves -/

/-- All providers work. -/
def online : RepairNetwork :=
  { configured := fun _ => true
    delivers := fun _ _ => true
    accepts := fun _ _ => true }

/-- The storage with one local file. -/
def oneLocalFile : RepairWorld symbolic :=
  { files := packedStore symbolicChunks openVault [keepLocal] fourByteChunks 1 [7] none }

/-- The file shall be in the cloud, and the worker sees to it. -/
def intoCloud : List StorageEvent :=
  [.policies (fun _ => some "STANDARD") (fun _ => none) 0, .repairPass online 40]

/-- A local file is restored as it was saved, and no longer once it is moved into the cloud. -/
theorem restoreFile_intoCloud :
    (∃ restored, ((restoreFile symbolicChunks offline 1).run
      (StorageEvent.run symbolicChunks 0 [] oneLocalFile).files).1 = .ok restored ∧
        restored.output = [7]) ∧
    ¬ ∃ net restored, ((restoreFile symbolicChunks net 1).run
      (StorageEvent.run symbolicChunks 0 intoCloud oneLocalFile).files).1 = .ok restored := by
  have hpieces : ∀ p, (∃ op ∈ [keepLocal] ++ [StoreOp.pack fourByteChunks 1 [7] none],
      p ∈ op.pieces) → p = [7] := by
    intro p h
    obtain ⟨op, hop, hp⟩ := h
    simp only [List.cons_append, List.nil_append, List.mem_cons, List.not_mem_nil, or_false] at hop
    rcases hop with hedit | hpack
    · rw [hedit] at hp
      cases hp
    · rw [hpack] at hp
      exact List.mem_singleton.mp hp
  have hchanges := fun events => restoreFile_modeChanges symbolic_ideal symbolicChunks_ideal
    openVault_open [keepLocal] fourByteChunks 1 [7] none rfl
    (by
      intro i j p q hi hj hp hq h
      rw [hpieces p hp, hpieces q hq] at h ⊢
      have hi' : i < 2 := hi
      have hj' : j < 2 := hj
      refine ⟨?_, rfl⟩
      interval_cases i <;> interval_cases j <;> first | rfl | exact absurd h (by decide))
    (by
      intro i hi p hp
      rw [hpieces p hp]
      have hi' : i < 2 := hi
      interval_cases i <;> rfl)
    0 events (t := oneLocalFile) rfl
  constructor
  · apply (hchanges []).2 rfl (by decide) offline
    intro location hlocation pack hpack
    left
    have hlocal : ∀ pack ∈ oneLocalFile.files.db.packs, pack.storageMode = .localOnly := by decide
    exact hlocal pack (List.mem_of_find?_eq_some hpack)
  · intro h
    obtain ⟨net, restored, hrun⟩ := h
    have hunmoved := (hchanges intoCloud).1 net restored hrun
    rw [Unmoved] at hunmoved
    revert hunmoved
    decide +kernel

end OmniDrive
