import OmniDrive.Storage.Edits
import OmniDrive.Storage.PackFaults
import OmniDrive.Storage.Trash

/-!
# Saves under foreign keys

The packer with the foreign keys of `file_revisions` enforced. Whether the vault is open or locked,
and wherever the preparation of the chunks is cut off, a save stores the packed bytes as the current
revision or leaves the revisions of the file alone.
-/

namespace OmniDrive

open StatementProgram Tables ByteFields Packer History

variable {P : Primitives} {C : ChunkPrimitives P} {known : Bytes → Prop} {cur vaultKey : P.Key}
  {all chunks : List StoredChunk} {keys : UnlockedVaultKeys P}

namespace Db

/-- `create_file_revision` where the row of the inode and the row of the parent must be there. -/
def insertFileRevision (inodeId size : ℤ) (immutableUntil : Option ℤ) (deviceId : Option String)
    (parentRevisionId : Option ℤ) (origin : String) (conflictReason : Option String) :
    FileProg P PackerError ℤ := do
  let revisionId ← Prog.execReturning
    (fun w => if Trash.revisionAllowed inodeId parentRevisionId w.db then
        { w with
          db := appendRevision inodeId size immutableUntil deviceId parentRevisionId origin
            conflictReason w.now (clearCurrent inodeId w.db) }
      else w)
    fun w => if Trash.revisionAllowed inodeId parentRevisionId w.db then
        some (w.db.revisionSequence + 1) else none
  Prog.ofOption (.db .foreignKeyViolation) revisionId

end Db

namespace Packer

/-- The part of the writer from the new revision on. -/
def recordPack (inodeId : ℤ)
    (prepared : List PreparedPack × Option String × Option ℤ × Option String) :
    FileProg P PackerError PackResult := do
  let logicalSize ← Prog.ofExcept (Packer.toI64 (logicalSizeOf prepared.1) "logical size")
  let revisionId ← Db.insertFileRevision inodeId logicalSize none prepared.2.1 prepared.2.2.1
    "local_write" none
  writeChunks revisionId prepared.1
  pure
    { revisionId
      packIds := prepared.1.map (·.packId)
      chunkCount := prepared.1.length
      logicalSize
      encryptedSize := encryptedSizeOf prepared.1
      conflictCopyName := prepared.2.2.2 }

variable (C) in
/-- `pack_file_with_expected_parent` on a database that enforces its foreign keys. -/
def saveFile (config : PackerConfig) (inodeId : ℤ) (source : Bytes) (expected : Option ℤ) :
    FileProg P PackerError PackResult := do
  let prepared ← preparePack C config inodeId source expected
  recordPack inodeId prepared

variable (C) in
/-- The statements of a save until its chunks are prepared. -/
def preparation (config : PackerConfig) (inodeId : ℤ) (source : Bytes) :
    FileProg P PackerError (List PreparedPack) := do
  let storageMode ← Db.getStorageModeForInode inodeId
  prepareChunks C inodeId storageMode 0 (piecesOf config.chunkSize source.length source)

/-- What follows the preparation of the chunks, up to the new revision. -/
def chooseParent (inodeId : ℤ) (expected : Option ℤ) (prepared : List PreparedPack) :
    FileProg P PackerError (List PreparedPack × Option String × Option ℤ × Option String) := do
  let localDevice ← onVault .vault Db.getLocalDeviceIdentity
  let deviceId := localDevice.map (·.deviceId)
  let deviceName := (localDevice.map (·.deviceName)).getD "Unknown Device"
  let current ← Db.getCurrentFileRevision inodeId
  let (parent, copyName) ← resolveParent current deviceId deviceName expected
  pure (prepared, deviceId, parent, copyName)

theorem preparePack_eq (config : PackerConfig) (inodeId : ℤ) (source : Bytes)
    (expected : Option ℤ) : preparePack C config inodeId source expected =
      preparation C config inodeId source >>= chooseParent inodeId expected := by
  rw [preparation, Prog.bind_assoc]
  rfl

end Packer

/-! ## What a save leaves of the tables -/

theorem History.SameRow.refl (r : FileRevisionRecord) : SameRow r r := ⟨rfl, rfl, rfl⟩

theorem History.SameRow.trans {r r' r'' : FileRevisionRecord} (h : SameRow r r')
    (h' : SameRow r' r'') : SameRow r r'' :=
  ⟨h'.1.trans h.1, h'.2.1.trans h.2.1, h'.2.2.trans h.2.2⟩

/-- Rows of revisions and inodes are added behind the others. -/
structure RowsGrown (db db' : FileDb) : Prop where
  revisions : ∀ r ∈ db.fileRevisions, ∃ r' ∈ db'.fileRevisions, SameRow r r'
  inodes : db.inodes <+: db'.inodes

section Rows

variable {db db' : FileDb}

theorem RowsGrown.refl (db : FileDb) : RowsGrown db db :=
  ⟨fun r hr => ⟨r, hr, .refl r⟩, List.prefix_refl _⟩

/-- A new revision clears the flags of its inode and adds a row. -/
theorem RowsGrown.appendRevision (h : RowsGrown db db') (inodeId size : ℤ)
    (immutableUntil : Option ℤ) (deviceId : Option String) (parent : Option ℤ) (origin : String)
    (reason : Option String) (now : ℤ) :
    RowsGrown db (Db.appendRevision inodeId size immutableUntil deviceId parent origin reason now
      (Db.clearCurrent inodeId db')) where
  revisions r hr := by
    obtain ⟨r', hr', hsame⟩ := h.revisions r hr
    obtain ⟨r'', hr'', hsame'⟩ := exists_cleared hr' inodeId
    exact ⟨r'', List.mem_append_left _ hr'', hsame.trans hsame'⟩
  inodes := h.inodes

theorem RowsGrown.copyRefs (h : RowsGrown db db') (toRevisionId : ℤ)
    (rows : List ChunkRefRecord) : RowsGrown db (rows.foldl (fun db r =>
      Db.appendChunkRef toRevisionId r.chunkId r.fileOffset r.size db) db') := by
  obtain ⟨rows', hfold, -, -⟩ := copied_refs toRevisionId rows db'
  rw [hfold]
  exact ⟨h.revisions, h.inodes⟩

end Rows

section Keeps

variable (db : FileDb)

theorem keeps_rows_createConflictInode (parentId : Option ℤ) (baseName kind : String) (size : ℤ)
    (left attempt : ℕ) : (Db.createConflictInode (P := P) parentId baseName kind size left
      attempt).Keeps fun w => RowsGrown db w.db := by
  have hinsert : ∀ name (w : FileWorld P), RowsGrown db w.db →
      RowsGrown db (if Db.nameTaken parentId name w.db then w
        else { w with db := Db.appendInode parentId name kind size w.db }).db := by
    intro name w h
    split
    · exact h
    · exact ⟨h.revisions, h.inodes.trans (List.prefix_append _ _)⟩
  induction left generalizing attempt with
  | zero => trivial
  | succ left ih =>
    apply Prog.Keeps.bind
    · apply Prog.Keeps.attempt
      apply (Prog.Keeps.ofExcept _).bind
      intro _
      apply (Prog.Keeps.execReturning _ (hinsert _)).bind
      intro created
      exact Prog.Keeps.ofOption _ _
    · intro created
      rcases created with e | inodeId
      · cases e with
        | uniqueViolation => exact ih (attempt + 1)
        | rowNotFound => trivial
        | foreignKeyViolation => trivial
        | unavailable => trivial
        | invalidArgument m => trivial
      · trivial

theorem keeps_rows_materializeConflictCopy (sourceRevisionId : ℤ) (deviceId : Option String)
    (deviceName reason : String) :
    (Db.materializeConflictCopyFromRevision (P := P) sourceRevisionId deviceId deviceName
      reason).Keeps fun w => RowsGrown db w.db := by
  apply (Prog.Keeps.query _).bind
  intro source
  apply (Prog.Keeps.ofOption _ _).bind
  intro source
  apply (Prog.Keeps.query _).bind
  intro inode
  apply (Prog.Keeps.ofOption _ _).bind
  intro inode
  apply (keeps_rows_createConflictInode db _ _ _ _ _ _).bind
  intro created
  apply (Prog.Keeps.ofOption _ _).bind
  intro created
  apply (Prog.Keeps.execReturning _ fun _ h => h.appendRevision _ _ _ _ _ _ _ _).bind
  intro revisionId
  apply (Prog.Keeps.exec fun _ h => h.copyRefs _ _).bind
  intro _
  apply (Prog.Keeps.execReturning _ fun _ h => ⟨h.revisions, h.inodes⟩).bind
  intro conflictId
  exact (Prog.Keeps.exec fun _ h => ⟨h.revisions, h.inodes⟩).bind fun _ => trivial

theorem keeps_rows_resolveParent (current : Option FileRevisionRecord) (deviceId : Option String)
    (deviceName : String) (expected : Option ℤ) :
    (resolveParent (P := P) current deviceId deviceName expected).Keeps
      fun w => RowsGrown db w.db := by
  cases expected with
  | none => trivial
  | some expected =>
    cases current with
    | none => trivial
    | some current =>
      apply Prog.Keeps.bind
      · unfold Db.classifyRevisionLineage
        split
        · trivial
        · apply (Prog.Keeps.query _).bind
          intro descends
          split
          · trivial
          · apply (Prog.Keeps.query _).bind
            intro ascends
            split <;> trivial
      · intro lineage
        cases conflictReason lineage with
        | none => trivial
        | some reason =>
          apply Prog.Keeps.bind
          · exact (keeps_rows_materializeConflictCopy db _ _ _ _).mapError
          · exact fun _ => trivial

theorem keeps_rows_preparePack (config : PackerConfig) (inodeId : ℤ) (source : Bytes)
    (expected : Option ℤ) : (preparePack C config inodeId source expected).Keeps
      fun w => RowsGrown db w.db := by
  apply (Prog.Keeps.query _).bind
  intro mode
  apply Prog.Keeps.bind
  · exact keeps_prepareChunks (fun _ _ h => h) (fun _ => keeps_onVault_frame (fun _ _ h => h) _ _)
      (keeps_onVault_frame (fun _ _ h => h) _ _) inodeId mode _ _
  intro prepared
  have hdevice : (onVault PackerError.vault (Db.getLocalDeviceIdentity (P := P))).Keeps
      fun w => RowsGrown db w.db := keeps_onVault_frame (fun _ _ h => h) _ _
  apply hdevice.bind
  intro device
  apply (Prog.Keeps.query _).bind
  intro current
  exact (keeps_rows_resolveParent db _ _ _ _).bind fun _ => trivial

theorem keeps_rows_writeChunks (revisionId : ℤ) (packs : List PreparedPack) :
    (writeChunks revisionId packs : FileProg P PackerError Unit).Keeps
      fun w => RowsGrown db w.db := by
  have hshards : ∀ packId (shards : List PreparedShard),
      (registerShards packId shards : FileProg P PackerError Unit).Keeps
        fun w => RowsGrown db w.db := by
    intro packId shards
    induction shards with
    | nil => trivial
    | cons shard rest ih =>
      exact (Prog.Keeps.exec fun _ h => ⟨h.revisions, h.inodes⟩).bind fun _ => ih
  induction packs with
  | nil => trivial
  | cons pack rest ih =>
    apply Prog.Keeps.bind _ fun _ => ih
    apply (Prog.Keeps.execReturning _ fun _ h => ⟨h.revisions, h.inodes⟩).bind
    intro _
    apply (Prog.Keeps.exec fun _ h => ⟨h.revisions, h.inodes⟩).bind
    intro _
    split
    · trivial
    · apply (Prog.Keeps.exec fun _ h => ⟨h.revisions, h.inodes⟩).bind
      intro _
      apply Prog.Keeps.bind
      · cases pack.dekId with
        | some dekId => exact Prog.Keeps.exec fun _ h => ⟨h.revisions, h.inodes⟩
        | none => trivial
      · intro _
        apply (hshards _ _).bind
        intro _
        split
        · exact Prog.Keeps.exec fun _ h => ⟨h.revisions, h.inodes⟩
        · trivial

theorem keeps_rows_recordPack (inodeId : ℤ)
    (prepared : List PreparedPack × Option String × Option ℤ × Option String) :
    (recordPack inodeId prepared : FileProg P PackerError PackResult).Keeps
      fun w => RowsGrown db w.db := by
  apply (Prog.Keeps.ofExcept _).bind
  intro logicalSize
  apply Prog.Keeps.bind
  · apply Prog.Keeps.bind
    · apply Prog.Keeps.execReturning
      intro w h
      split
      · exact h.appendRevision _ _ _ _ _ _ _ _
      · exact h
    · exact fun _ => Prog.Keeps.ofOption _ _
  intro revisionId
  exact (keeps_rows_writeChunks db _ _).bind fun _ => trivial

end Keeps

/-- A save adds rows behind the others, wherever it is cut off. -/
theorem keeps_rows_saveFile (db : FileDb) (config : PackerConfig) (inodeId : ℤ) (source : Bytes)
    (expected : Option ℤ) :
    (saveFile C config inodeId source expected).Keeps fun w => RowsGrown db w.db :=
  (keeps_rows_preparePack db config inodeId source expected).bind
    fun prepared => keeps_rows_recordPack db inodeId prepared

/-! ## The key slot -/

section Slot

variable (slot : Option (UnlockedVaultKeys P)) (k : ℕ)

/-- A save takes no draw back and does not lock or unlock the vault. -/
theorem keeps_slot_preparation (config : PackerConfig) (inodeId : ℤ) (source : Bytes) :
    (preparation C config inodeId source).Keeps
      fun w => w.vault.inner = slot ∧ k ≤ w.vault.draws := by
  have hkey : ∀ inodeId, (VaultKeyStore.createPackDek inodeId : VaultProg P _).Keeps
      fun vault => vault.inner = slot ∧ k ≤ vault.draws := by
    intro inodeId
    apply Prog.Keeps.bind
    · exact (Prog.Keeps.query _).bind fun _ => Prog.Keeps.ofOption _ _
    intro envelopeKey
    apply (Prog.Keeps.execReturning _ fun _ h => ⟨h.1, Nat.le_succ_of_le h.2⟩).bind
    intro dek
    apply (Prog.Keeps.query _).bind
    intro keyVersion
    apply Prog.Keeps.bind
    · exact (Prog.Keeps.query _).bind fun _ => trivial
    intro vaultKeyGen
    exact (Prog.Keeps.execReturning _ fun _ h => h).bind fun _ => trivial
  have hnonce : (draw id : VaultProg P ℕ).Keeps
      fun vault => vault.inner = slot ∧ k ≤ vault.draws :=
    Prog.Keeps.execReturning _ fun _ h => ⟨h.1, Nat.le_succ_of_le h.2⟩
  apply (Prog.Keeps.query _).bind
  intro mode
  exact keeps_prepareChunks (fun _ _ h => h) (fun inodeId => keeps_onVault _ (hkey inodeId))
    (keeps_onVault _ hnonce) inodeId mode _ _

theorem keeps_slot_preparePack (config : PackerConfig) (inodeId : ℤ) (source : Bytes)
    (expected : Option ℤ) : (preparePack C config inodeId source expected).Keeps
      fun w => w.vault.inner = slot ∧ k ≤ w.vault.draws := by
  have hdevice : (Db.getLocalDeviceIdentity : VaultProg P _).Keeps
      fun vault => vault.inner = slot ∧ k ≤ vault.draws := Prog.Keeps.query _
  rw [preparePack_eq]
  apply (keeps_slot_preparation slot k config inodeId source).bind
  intro prepared
  apply (keeps_onVault _ hdevice).bind
  intro device
  apply (Prog.Keeps.query _).bind
  intro current
  exact (keeps_resolveParent (fun vault => vault.inner = slot ∧ k ≤ vault.draws) _ _ _ _).bind
    fun _ => trivial

/-- The new revision and its chunks do not touch the vault. -/
theorem keeps_vault_recordPack (I : VaultWorld P → Prop) (inodeId : ℤ)
    (prepared : List PreparedPack × Option String × Option ℤ × Option String) :
    (recordPack inodeId prepared : FileProg P PackerError PackResult).Keeps
      fun w => I w.vault := by
  apply (Prog.Keeps.ofExcept _).bind
  intro logicalSize
  apply Prog.Keeps.bind
  · apply Prog.Keeps.bind
    · apply Prog.Keeps.execReturning
      intro w h
      split
      · exact h
      · exact h
    · exact fun _ => Prog.Keeps.ofOption _ _
  intro revisionId
  exact (keeps_writeChunks I _ _).bind fun _ => trivial

theorem keeps_slot_saveFile (config : PackerConfig) (inodeId : ℤ) (source : Bytes)
    (expected : Option ℤ) : (saveFile C config inodeId source expected).Keeps
      fun w => w.vault.inner = slot ∧ k ≤ w.vault.draws :=
  (keeps_slot_preparePack slot k config inodeId source expected).bind fun prepared =>
    keeps_vault_recordPack (fun vault => vault.inner = slot ∧ k ≤ vault.draws) inodeId prepared

end Slot

/-! ## Open and locked vaults -/

/-- The world with the vault unlocked. -/
def FileWorld.opened (keys : UnlockedVaultKeys P) (w : FileWorld P) : FileWorld P :=
  { w with vault := { w.vault with inner := some keys } }

@[simp] theorem FileWorld.opened_db (keys : UnlockedVaultKeys P) (w : FileWorld P) :
    (w.opened keys).db = w.db := rfl

theorem FileWorld.opened_of_inner {w : FileWorld P} (h : w.vault.inner = some keys) :
    w.opened keys = w := by
  rw [opened, ← h]

/-- The preparation of a save, with the vault locked or unlocked. -/
theorem run_preparePack_slot (ideal : C.Ideal) {w : FileWorld P}
    (hslot : w.vault.inner = none ∨ w.vault.inner = some keys)
    (hstore : StoreInv C known cur vaultKey all chunks (w.opened keys)) (config : PackerConfig)
    (inodeId : ℤ) {source : Bytes}
    (hknown : ∀ p ∈ piecesOf config.chunkSize source.length source, known p)
    (expected : Option ℤ) : ∃ all' t, ((preparePack C config inodeId source expected).run w).2 = t ∧
      (∀ c ∈ all, c ∈ all') ∧ FilesInv C known cur vaultKey all' (t.opened keys) ∧
      TablesInv C chunks t.db ∧ RevisionsInv C chunks t.db ∧
      ∀ r, ((preparePack C config inodeId source expected).run w).1 = .ok r →
        ∃ items, r.1 = preparedFrom C 0 items ∧ ItemsInv (Db.storageModeOf inodeId w.db) chunks all
          all' (piecesOf config.chunkSize source.length source) items := by
  rcases hslot with hlocked | hopen
  · -- nothing is written before the parent is chosen
    have htables : TablesInv C chunks w.db := hstore.tables
    have hrevisions : RevisionsInv C chunks w.db := hstore.revisions
    have hfits := fun c hc => (hstore.fits c hc).2
    rw [preparePack, Db.getStorageModeForInode, run_selectFiles_bind]
    have hstay := (keeps_prepareChunks_locked (C := C) hlocked inodeId
      (Db.storageModeOf inodeId w.db) 0 (piecesOf config.chunkSize source.length source)).run rfl
    rcases hrun : (prepareChunks C inodeId (Db.storageModeOf inodeId w.db) 0
      (piecesOf config.chunkSize source.length source)).run w with ⟨e | prepared, t⟩
    · rw [hrun] at hstay
      obtain rfl : t = w := hstay
      rw [Prog.run_bind_of_error hrun]
      exact ⟨all, t, rfl, fun _ hc => hc, hstore.files, htables, hrevisions, fun r h => by cases h⟩
    rw [hrun] at hstay
    obtain rfl : t = w := hstay
    obtain ⟨items, hprepared, hitems⟩ := run_prepareChunks_locked hlocked ideal htables hfits
      inodeId _ 0 (congrArg Prod.fst hrun)
    have hdevice : (onVault PackerError.vault Db.getLocalDeviceIdentity).run t =
        (.ok t.vault.db.localDeviceIdentity, t) := run_onVault _ _ t
    rw [Prog.run_bind_of_ok hrun, Prog.run_bind_of_ok hdevice, Db.getCurrentFileRevision,
      run_selectFiles_bind]
    obtain ⟨db', hstate, htables', hrevisions'⟩ := run_resolveParent
      (Db.currentRevision inodeId t.db) (t.vault.db.localDeviceIdentity.map (·.deviceId))
      ((t.vault.db.localDeviceIdentity.map (·.deviceName)).getD "Unknown Device") expected
      htables hrevisions
    rcases hparent : (resolveParent (Db.currentRevision inodeId t.db)
      (t.vault.db.localDeviceIdentity.map (·.deviceId))
      ((t.vault.db.localDeviceIdentity.map (·.deviceName)).getD "Unknown Device") expected).run t
      with ⟨e | parent, t'⟩
    · rw [hparent] at hstate
      obtain rfl : t' = t.withDb db' := hstate
      rw [Prog.run_bind_of_error hparent]
      exact ⟨all, _, rfl, fun _ hc => hc, hstore.files.withDb db', htables', hrevisions',
        fun r h => by cases h⟩
    · rw [hparent] at hstate
      obtain rfl : t' = t.withDb db' := hstate
      rw [Prog.run_bind_of_ok hparent]
      refine ⟨all, _, rfl, fun _ hc => hc, hstore.files.withDb db', htables', hrevisions',
        fun r h => ⟨items, ?_, hitems⟩⟩
      cases h
      exact hprepared
  · rw [FileWorld.opened_of_inner hopen] at hstore
    obtain ⟨all', t, hstate, hall, hfiles, htables, hrevisions, -, hok⟩ :=
      run_preparePack ideal hstore config inodeId hknown expected
    have hinner := (keeps_slot_preparePack (C := C) (some keys) 0 config inodeId source expected).run
      ⟨hopen, Nat.zero_le _⟩
    rw [hstate] at hinner
    refine ⟨all', t, hstate, hall, ?_, htables, hrevisions, hok⟩
    rw [FileWorld.opened_of_inner hinner.1]
    exact hfiles

/-- The preparation cut off anywhere, with the vault locked or unlocked. -/
theorem cut_preparation_slot (ideal : C.Ideal) {w : FileWorld P}
    (hslot : w.vault.inner = none ∨ w.vault.inner = some keys)
    (hstore : StoreInv C known cur vaultKey all chunks (w.opened keys)) (config : PackerConfig)
    (inodeId : ℤ) {source : Bytes}
    (hknown : ∀ p ∈ piecesOf config.chunkSize source.length source, known p) (n : ℕ) : ∃ all',
      (∀ c ∈ all, c ∈ all') ∧
      FilesInv C known cur vaultKey all'
        (((preparation C config inodeId source).cut n w).opened keys) ∧
      ((preparation C config inodeId source).cut n w).db = w.db := by
  have hquery : ∀ n, (preparation C config inodeId source).cut n w = w ∨
      ∃ m, (preparation C config inodeId source).cut n w = (prepareChunks C inodeId
        (Db.storageModeOf inodeId w.db) 0
          (piecesOf config.chunkSize source.length source)).cut m w := by
    intro n
    cases n with
    | zero => exact .inl (Prog.cut_zero _ _)
    | succ n => exact .inr ⟨n, rfl⟩
  rcases hquery n with hcut | ⟨m, hcut⟩
  · rw [hcut]
    exact ⟨all, fun _ hc => hc, hstore.files, rfl⟩
  rw [hcut]
  rcases hslot with hlocked | hopen
  · have hstay := (keeps_prepareChunks_locked (C := C) hlocked inodeId
      (Db.storageModeOf inodeId w.db) 0 (piecesOf config.chunkSize source.length source)).cut m rfl
    have hstay : _ = w := hstay
    rw [hstay]
    exact ⟨all, fun _ hc => hc, hstore.files, rfl⟩
  · rw [FileWorld.opened_of_inner hopen] at hstore
    obtain ⟨all', hspooled⟩ := cut_prepareChunks ideal hstore.tables
      (fun c hc => (hstore.fits c hc).2) inodeId (Db.storageModeOf inodeId w.db) 0 hknown rfl
      hstore.files m
    refine ⟨all', hspooled.subset, ?_, hspooled.db⟩
    rw [FileWorld.opened_of_inner]
    · exact hspooled.files
    · have hinner := (keeps_slot_preparation (C := C) (some keys) 0 config inodeId source).cut n
        (s := w) ⟨hopen, Nat.zero_le _⟩
      rw [hcut] at hinner
      exact hinner.1

/-! ## Stored contents -/

/-- A revision is there, and refers to stored chunks of these bytes. -/
def Described (C : ChunkPrimitives P) (chunks : List StoredChunk) (revisionId : ℤ) (bytes : Bytes)
    (db : FileDb) : Prop :=
  (∃ r ∈ db.fileRevisions, r.revisionId = revisionId) ∧
    ∃ cs, (∀ c ∈ cs, c ∈ chunks) ∧ RefsFrom C 0 cs (refRows revisionId db) ∧
      (cs.map fun c => c.plaintext).flatten = bytes ∧ bytes.length < 2 ^ 63

/-- The store, once unlocked, is in order, and the revision has these bytes. -/
def Stores (C : ChunkPrimitives P) (known : Bytes → Prop) (cur vaultKey : P.Key)
    (keys : UnlockedVaultKeys P) (revisionId : ℤ) (bytes : Bytes) (w : FileWorld P) : Prop :=
  ∃ all chunks, StoreInv C known cur vaultKey all chunks (w.opened keys) ∧
    Described C chunks revisionId bytes w.db

/-- The store is in order once unlocked, and so is the history of its files. -/
structure Intact (C : ChunkPrimitives P) (known : Bytes → Prop) (cur vaultKey : P.Key)
    (keys : UnlockedVaultKeys P) (w : FileWorld P) : Prop where
  slot : w.vault.inner = none ∨ w.vault.inner = some keys
  store : ∃ all chunks, StoreInv C known cur vaultKey all chunks (w.opened keys)
  history : (historyOf w.db).Inv w.db.inodeSequence

/-- What a step leaves of a store. -/
structure Carried (C : ChunkPrimitives P) (known : Bytes → Prop) (cur vaultKey : P.Key)
    (keys : UnlockedVaultKeys P) (w w' : FileWorld P) : Prop where
  slot : w'.vault.inner = none ∨ w'.vault.inner = some keys
  store : ∀ all chunks, StoreInv C known cur vaultKey all chunks (w.opened keys) →
    ∃ all' chunks', (∀ c ∈ chunks, c ∈ chunks') ∧
      StoreInv C known cur vaultKey all' chunks' (w'.opened keys)
  history : (historyOf w'.db).Inv w'.db.inodeSequence
  inodeIds : ∀ i ∈ (historyOf w.db).inodeIds, i ∈ (historyOf w'.db).inodeIds
  revisions : ∀ r ∈ w.db.fileRevisions, ∃ r' ∈ w'.db.fileRevisions, SameRow r r'
  refs : ∀ r ∈ w.db.fileRevisions, Db.refsOf r.revisionId w'.db = Db.refsOf r.revisionId w.db

section Carried

variable {w w' w'' : FileWorld P}

theorem Intact.carried (h : Intact C known cur vaultKey keys w) :
    Carried C known cur vaultKey keys w w where
  slot := h.slot
  store all chunks hstore := ⟨all, chunks, fun _ hc => hc, hstore⟩
  history := h.history
  inodeIds _ hi := hi
  revisions r hr := ⟨r, hr, .refl r⟩
  refs _ _ := rfl

theorem Carried.intact (hcarried : Carried C known cur vaultKey keys w w')
    (h : Intact C known cur vaultKey keys w) : Intact C known cur vaultKey keys w' := by
  obtain ⟨all, chunks, hstore⟩ := h.store
  obtain ⟨all', chunks', -, hstore'⟩ := hcarried.store all chunks hstore
  exact ⟨hcarried.slot, ⟨all', chunks', hstore'⟩, hcarried.history⟩

/-- The references of a revision of a store in order. -/
theorem StoreInv.refsOf_eq (h : StoreInv C known cur vaultKey all chunks (w.opened keys))
    {r : FileRevisionRecord} (hr : r ∈ w.db.fileRevisions) :
    Db.refsOf r.revisionId w.db = refRows r.revisionId w.db := by
  obtain ⟨cs, -, hrefs, -⟩ := h.revisions.described r hr
  exact OmniDrive.refsOf_eq hrefs

/-- What is stored stays stored. -/
theorem Carried.stores (hcarried : Carried C known cur vaultKey keys w w') {revisionId : ℤ}
    {bytes : Bytes} (h : Stores C known cur vaultKey keys revisionId bytes w) :
    Stores C known cur vaultKey keys revisionId bytes w' := by
  obtain ⟨all, chunks, hstore, ⟨r, hr, hid⟩, cs, hcs, hrefs, hbytes⟩ := h
  obtain ⟨all', chunks', hsub, hstore'⟩ := hcarried.store all chunks hstore
  obtain ⟨r', hr', hsame⟩ := hcarried.revisions r hr
  have hid' : r'.revisionId = revisionId := hsame.1.trans hid
  have hrows : refRows revisionId w'.db = refRows revisionId w.db := by
    have hold := hstore.refsOf_eq hr
    have hnew := hstore'.refsOf_eq hr'
    have hrefs := hcarried.refs r hr
    rw [hid] at hold hrefs
    rw [hid'] at hnew
    rw [← hnew, hrefs, hold]
  refine ⟨all', chunks', hstore', ⟨r', hr', hid'⟩, cs, fun c hc => hsub c (hcs c hc), ?_, hbytes⟩
  rw [hrows]
  exact hrefs

end Carried

/-! ## The outcome of a save -/

/-- The inodes that a history starts from may be any that are there. -/
theorem History.Inv.rebase {first : ℤ} {h : History} (hinv : h.Inv first) :
    h.Inv h.inodeSequence where
  start := le_rfl
  inodeIds := hinv.inodeIds
  revisionIds := hinv.revisionIds
  nodup := hinv.nodup
  parents := hinv.parents
  inodes := hinv.inodes
  current := hinv.current
  only := hinv.only
  copies r hr hlt := absurd (hinv.inodeIds _ (hinv.inodes r hr)) (not_le.mpr hlt)
  refIds := hinv.refIds
  conflictIds := hinv.conflictIds

/-- The current revision of an inode has this identifier. -/
def CurrentIs (inodeId revisionId : ℤ) (db : FileDb) : Prop :=
  ∃ r, Db.currentRevision inodeId db = some r ∧ r.revisionId = revisionId

/-- The inode has the same revisions, with the same one current. -/
def SameRevisionsOf (inodeId : ℤ) (db db' : FileDb) : Prop :=
  ∀ r, r.inodeId = inodeId → (r ∈ db'.fileRevisions ↔ r ∈ db.fileRevisions)

section Save

variable {w : FileWorld P} {inodeId : ℤ}

theorem inodeOf_isSome_of_mem (h : inodeId ∈ (historyOf w.db).inodeIds) :
    (Trash.inodeOf inodeId w.db).isSome = true := by
  obtain ⟨i, hi, hid⟩ := List.mem_map.mp h
  rw [Trash.inodeOf, List.find?_isSome]
  exact ⟨i, hi, by simpa using hid⟩

/-- A revision with its inode and its parent is not refused. -/
theorem run_recordPack_eq {parent : Option ℤ}
    (hallowed : Trash.revisionAllowed inodeId parent w.db = true) (prepared : List PreparedPack)
    (deviceId copyName : Option String) :
    (recordPack inodeId (prepared, deviceId, parent, copyName)).run w =
      (Prog.ofExcept (Packer.toI64 (logicalSizeOf prepared) "logical size") >>= fun logicalSize => do
        let revisionId ← Db.createFileRevision inodeId logicalSize none deviceId parent
          "local_write" none
        writeChunks revisionId prepared
        pure
          { revisionId
            packIds := prepared.map (·.packId)
            chunkCount := prepared.length
            logicalSize
            encryptedSize := encryptedSizeOf prepared
            conflictCopyName := copyName }).run w := by
  rw [recordPack]
  rcases Packer.toI64 (logicalSizeOf prepared) "logical size" with e | logicalSize
  · rfl
  have hinsert : (Db.insertFileRevision (P := P) inodeId logicalSize none deviceId parent
      "local_write" none).run w = (.ok (w.db.revisionSequence + 1), w.withDb
        (Db.appendRevision inodeId logicalSize none deviceId parent "local_write" none w.now
          (Db.clearCurrent inodeId w.db))) := by
    rw [Db.insertFileRevision, Prog.run_execReturning_bind, if_pos hallowed, if_pos hallowed]
    rfl
  have hcreate : (Db.createFileRevision (P := P) (ε := PackerError) inodeId logicalSize none deviceId
      parent "local_write" none).run w = (.ok (w.db.revisionSequence + 1), w.withDb
        (Db.appendRevision inodeId logicalSize none deviceId parent "local_write" none w.now
          (Db.clearCurrent inodeId w.db))) := rfl
  rw [Prog.ofExcept_ok, Prog.ret_bind, Prog.ret_bind, Prog.run_bind_of_ok hinsert,
    Prog.run_bind_of_ok hcreate]

/-- A save on a parent that is there is not refused. -/
theorem run_saveFile_eq (hhistory : (historyOf w.db).Inv w.db.inodeSequence)
    (hinode : inodeId ∈ (historyOf w.db).inodeIds) (config : PackerConfig) (source : Bytes)
    {expected : Option ℤ}
    (hexpected : ∀ e ∈ expected, ∃ r ∈ w.db.fileRevisions, r.revisionId = e) :
    (saveFile C config inodeId source expected).run w =
      (packFileWithExpectedParent C config inodeId source expected).run w := by
  obtain ⟨out, t, hprepare, hunedited, hchosen⟩ := run_preparePack_eq (C := C) hhistory
    (hhistory.inodeIds inodeId hinode) config source hexpected
  rw [saveFile, packFileWithExpectedParent]
  rcases out with e | prepared
  · rw [Prog.run_bind_of_error hprepare, Prog.run_bind_of_error hprepare]
  obtain ⟨prepared, deviceId, parent, copyName⟩ := prepared
  have hparent := hchosen prepared deviceId parent copyName rfl
  have hallowed : Trash.revisionAllowed inodeId parent t.db = true := by
    rw [Trash.revisionAllowed, Bool.and_eq_true, Option.all_eq_true]
    refine ⟨inodeOf_isSome_of_mem (hunedited.grows.inodeIds inodeId hinode), fun p hp => ?_⟩
    obtain ⟨q, hq, hid⟩ := hparent.there p hp
    rw [List.any_eq_true]
    exact ⟨q, hq, by simpa using hid⟩
  rw [Prog.run_bind_of_ok hprepare, Prog.run_bind_of_ok hprepare,
    run_recordPack_eq hallowed prepared deviceId copyName]

/-- The inode has the revisions of before where only others have got new ones. -/
theorem sameRevisionsOf_of_unedited {db' : FileDb} {first : ℤ}
    (hhistory : (historyOf w.db).Inv first)
    (hrows : ∀ r ∈ w.db.fileRevisions, ∃ r' ∈ db'.fileRevisions, SameRow r r')
    (hown : ∀ r ∈ db'.fileRevisions, r.inodeId = inodeId → r ∈ w.db.fileRevisions) :
    SameRevisionsOf inodeId w.db db' := by
  intro r hinode
  constructor
  · exact fun hr => hown r hr hinode
  · intro hr
    obtain ⟨r', hr', hsame⟩ := hrows r hr
    have hr'' := hown r' hr' (hsame.2.1.trans hinode)
    rwa [List.inj_on_of_nodup_map hhistory.nodup hr hr'' hsame.1.symm]

section Record

variable {n : ℕ} (ideal : C.Ideal) (hfree : C.CollisionFree n known)
include ideal hfree

/-- The new revision of prepared chunks is stored with the packed bytes. -/
theorem run_recordPack {all' : List StoredChunk}
    (hfiles : FilesInv C known cur vaultKey all' (w.opened keys)) (hdraws : w.vault.draws ≤ n)
    (htables : TablesInv C chunks w.db) (hrevisions : RevisionsInv C chunks w.db)
    (hsub : ∀ c ∈ chunks, c ∈ all) (hnodup : chunks.Nodup) (hall : ∀ c ∈ all, c ∈ all')
    (hfits : ∀ c ∈ chunks, c.plaintext ≠ [] ∧ c.plaintext.length + 96 < 2 ^ 63)
    (config : PackerConfig) {source : Bytes} {mode : StorageMode}
    {items : List (StoredChunk × Bool)} (hitems : ItemsInv mode chunks all all'
      (piecesOf config.chunkSize source.length source) items) {parent : Option ℤ}
    (hallowed : Trash.revisionAllowed inodeId parent w.db = true)
    (deviceId copyName : Option String) :
    (∃ e, (recordPack inodeId (preparedFrom C 0 items, deviceId, parent, copyName)).run w =
      (.error e, w)) ∨
    ∃ result db', (recordPack inodeId (preparedFrom C 0 items, deviceId, parent, copyName)).run w =
        (.ok result, w.withDb db') ∧
      StoreInv C known cur vaultKey all' (chunks ++ newChunks items) ((w.withDb db').opened keys) ∧
      FilePacked C inodeId result.revisionId source (items.map Prod.fst) db' := by
  have hplain : (items.map Prod.fst).map (fun c => c.plaintext) =
      piecesOf config.chunkSize source.length source := by
    rw [List.map_map]
    exact hitems.plaintexts
  have hflatten := flatten_piecesOf config.chunkSize_pos (Nat.le_refl source.length)
  have hlogical : logicalSizeOf (preparedFrom C 0 items) = source.length := by
    rw [logicalSizeOf_preparedFrom, plainSize_eq_length, hplain, hflatten]
  rw [run_recordPack_eq hallowed, hlogical]
  rcases hsize : Packer.toI64 source.length "logical size" with e | size
  · exact .inl ⟨e, rfl⟩
  obtain ⟨rfl, hlt⟩ := toI64_eq_ok hsize
  right
  obtain ⟨-, hinv, hpacked⟩ := StoreInv.write (w := w.opened keys) ideal hfree hfiles hdraws htables
    hrevisions hsub hnodup hall hfits hflatten (fun p hp => ne_nil_of_mem_piecesOf hp) hitems hlt
    inodeId deviceId parent
  obtain ⟨db₁, hdb₁⟩ : ∃ db₁, db₁ = Db.appendRevision inodeId source.length none deviceId parent
    "local_write" none w.now (Db.clearCurrent inodeId w.db) := ⟨_, rfl⟩
  have htables₁ : TablesInv C chunks db₁ := by
    rw [hdb₁]
    exact htables.congr rfl rfl rfl rfl
  have hseparate : Separate C all' := separate_of_collisionFree ideal hfree hfiles.known
    (fun c hc => Nat.lt_of_lt_of_le (hfiles.drawn c hc) hdraws) hfiles.distinct
  have hwritable : Writable chunks all' items :=
    ⟨hitems.reused, fun item hi hnew => ⟨(hitems.new item hi hnew).1,
      fun hmem => (hitems.new item hi hnew).2.1 (hsub _ hmem)⟩, hitems.nodup⟩
  obtain ⟨hwrite, -⟩ := run_writeChunks (w := w) hseparate (w.db.revisionSequence + 1)
    (fun c hc => hall c (hsub c hc)) 0 htables₁ hwritable
  have hcreate : (Db.createFileRevision (P := P) (ε := PackerError) inodeId source.length none
      deviceId parent "local_write" none).run w = (.ok (w.db.revisionSequence + 1),
        w.withDb db₁) := by
    rw [hdb₁]
    rfl
  rw [hdb₁] at hwrite
  rw [hdb₁] at hcreate
  refine ⟨
    { revisionId := w.db.revisionSequence + 1
      packIds := (preparedFrom C 0 items).map (·.packId)
      chunkCount := (preparedFrom C 0 items).length
      logicalSize := source.length
      encryptedSize := encryptedSizeOf (preparedFrom C 0 items)
      conflictCopyName := copyName },
    chunksWritten C (w.db.revisionSequence + 1) 0 items
      (Db.appendRevision inodeId source.length none deviceId parent "local_write" none w.now
        (Db.clearCurrent inodeId w.db)), ?_, hinv, hpacked⟩
  rw [Prog.ofExcept_ok, Prog.ret_bind, Prog.run_bind_of_ok hcreate, Prog.run_bind_of_ok hwrite]
  rfl

/-- The chunks of a store are still stored after a save. Where it returns, the packed bytes are the
current revision of the inode; where it fails, the inode has the revisions of before. -/
theorem run_saveFile_store (hslot : w.vault.inner = none ∨ w.vault.inner = some keys)
    (hstore : StoreInv C known cur vaultKey all chunks (w.opened keys))
    (hhistory : (historyOf w.db).Inv w.db.inodeSequence)
    (hinode : inodeId ∈ (historyOf w.db).inodeIds) (config : PackerConfig) {source : Bytes}
    (hknown : ∀ p ∈ piecesOf config.chunkSize source.length source, known p) {expected : Option ℤ}
    (hexpected : ∀ e ∈ expected, ∃ r ∈ w.db.fileRevisions, r.revisionId = e)
    {out : Except PackerError PackResult} {t : FileWorld P}
    (hrun : (saveFile C config inodeId source expected).run w = (out, t))
    (hdraws : t.vault.draws ≤ n) : ∃ all' chunks', (∀ c ∈ chunks, c ∈ chunks') ∧
      StoreInv C known cur vaultKey all' chunks' (t.opened keys) ∧
      (∀ e, out = .error e → SameRevisionsOf inodeId w.db t.db) ∧
      ∀ result, out = .ok result → ∃ cs, (∀ c ∈ cs, c ∈ chunks') ∧
        FilePacked C inodeId result.revisionId source cs t.db := by
  obtain ⟨all', u, hstate, hall, hfiles, htables, hrevisions, hok⟩ :=
    run_preparePack_slot ideal hslot hstore config inodeId hknown expected
  obtain ⟨out', u', hprepare, hunedited, hchosen⟩ := run_preparePack_eq (C := C) hhistory
    (hhistory.inodeIds inodeId hinode) config source hexpected
  have hkept : StoreInv C known cur vaultKey all' chunks (u.opened keys) :=
    ⟨hfiles, htables, hrevisions, fun c hc => hall c (hstore.subset c hc), hstore.nodup,
      hstore.fits⟩
  have hrows := (keeps_rows_preparePack (C := C) w.db config inodeId source expected).run (s := w)
    (.refl w.db)
  rw [hstate] at hrows
  rw [hprepare] at hstate hok
  obtain rfl : u' = u := hstate
  have hsame : SameRevisionsOf inodeId w.db u'.db :=
    sameRevisionsOf_of_unedited hhistory hrows.revisions hunedited.own
  rw [saveFile] at hrun
  rcases out' with e | r
  · rw [Prog.run_bind_of_error hprepare] at hrun
    cases hrun
    exact ⟨all', chunks, fun _ hc => hc, hkept, fun _ _ => hsame, fun result h => by cases h⟩
  obtain ⟨items, hprepared, hitems⟩ := hok r rfl
  obtain ⟨prepared, deviceId, parent, copyName⟩ := r
  obtain rfl : prepared = preparedFrom C 0 items := hprepared
  have hparent := hchosen _ deviceId parent copyName rfl
  have hallowed : Trash.revisionAllowed inodeId parent u'.db = true := by
    rw [Trash.revisionAllowed, Bool.and_eq_true, Option.all_eq_true]
    refine ⟨inodeOf_isSome_of_mem (hunedited.grows.inodeIds inodeId hinode), fun p hp => ?_⟩
    obtain ⟨q, hq, hid⟩ := hparent.there p hp
    rw [List.any_eq_true]
    exact ⟨q, hq, by simpa using hid⟩
  rw [Prog.run_bind_of_ok hprepare] at hrun
  have hvault := (keeps_vault_recordPack (· = u'.vault) inodeId
    (preparedFrom C 0 items, deviceId, parent, copyName)).run (s := u') rfl
  rw [hrun] at hvault
  have hvault : t.vault = u'.vault := hvault
  rw [hvault] at hdraws
  rcases run_recordPack ideal hfree hfiles hdraws htables hrevisions hstore.subset hstore.nodup hall
    hstore.fits config hitems hallowed deviceId copyName with
    ⟨e, hrecord⟩ | ⟨result, db', hrecord, hinv, hpacked⟩
  · rw [hrecord] at hrun
    cases hrun
    exact ⟨all', chunks, fun _ hc => hc, hkept, fun _ _ => hsame, fun result h => by cases h⟩
  · rw [hrecord] at hrun
    cases hrun
    refine ⟨all', chunks ++ newChunks items, fun c hc => List.mem_append_left _ hc, hinv,
      fun e h => (by cases h), fun result' h => ?_⟩
    cases h
    exact ⟨items.map Prod.fst, mem_chunks_of_item hitems.reused, hpacked⟩

end Record

/-- A save keeps the store in order. Where it returns, the packed bytes are the current revision of
the inode; where it fails, the inode has the revisions of before. -/
theorem run_saveFile {n : ℕ} (ideal : C.Ideal) (hfree : C.CollisionFree n known)
    (hintact : Intact C known cur vaultKey keys w)
    (hinode : inodeId ∈ (historyOf w.db).inodeIds) (config : PackerConfig) {source : Bytes}
    (hknown : ∀ p ∈ piecesOf config.chunkSize source.length source, known p) {expected : Option ℤ}
    (hexpected : ∀ e ∈ expected, ∃ r ∈ w.db.fileRevisions, r.revisionId = e)
    {out : Except PackerError PackResult} {t : FileWorld P}
    (hrun : (saveFile C config inodeId source expected).run w = (out, t))
    (hdraws : t.vault.draws ≤ n) :
    Carried C known cur vaultKey keys w t ∧
      (∀ e, out = .error e → SameRevisionsOf inodeId w.db t.db) ∧
      ∀ result, out = .ok result → CurrentIs inodeId result.revisionId t.db ∧
        Stores C known cur vaultKey keys result.revisionId source t := by
  have hrows : RowsGrown w.db t.db := by
    have hkeep := (keeps_rows_saveFile (C := C) w.db config inodeId source expected).run (s := w)
      (.refl w.db)
    rwa [hrun] at hkeep
  have hunenforced := run_saveFile_eq (C := C) hintact.history hinode config source hexpected
  obtain ⟨hhistory, hgrows, -⟩ := run_packFile_history (C := C) hintact.history
    (hintact.history.inodeIds inodeId hinode) hinode config source hexpected (t := t)
    (by rw [← hunenforced, hrun])
  have hhistory' : (historyOf t.db).Inv t.db.inodeSequence := hhistory.rebase
  have hslot : t.vault.inner = w.vault.inner := by
    have hkeep := (keeps_slot_saveFile (C := C) w.vault.inner 0 config inodeId source expected).run
      (s := w) ⟨rfl, Nat.zero_le _⟩
    rw [hrun] at hkeep
    exact hkeep.1
  have hstored := fun all chunks
    (hstore : StoreInv C known cur vaultKey all chunks (w.opened keys)) => run_saveFile_store ideal
      hfree hintact.slot hstore hintact.history hinode config hknown hexpected hrun hdraws
  refine ⟨⟨?_, ?_, hhistory', hgrows.inodeIds, hrows.revisions, ?_⟩, ?_, ?_⟩
  · rw [hslot]
    exact hintact.slot
  · intro all chunks hstore
    obtain ⟨all', chunks', hsub, hstore', -⟩ := hstored all chunks hstore
    exact ⟨all', chunks', hsub, hstore'⟩
  · intro r hr
    exact hgrows.refs r.revisionId (hintact.history.revisionIds r hr)
  · obtain ⟨all, chunks, hstore⟩ := hintact.store
    obtain ⟨all', chunks', -, -, herror, -⟩ := hstored all chunks hstore
    exact herror
  · intro result hresult
    obtain ⟨all, chunks, hstore⟩ := hintact.store
    obtain ⟨all', chunks', -, hstore', -, hpacked⟩ := hstored all chunks hstore
    obtain ⟨cs, hcs, hpacked⟩ := hpacked result hresult
    obtain ⟨fr, hfr, hid, hplace, hcurrent⟩ := hpacked.current
    exact ⟨⟨fr, (currentRevision_eq_some_iff hhistory).mpr ⟨hfr, hplace, hcurrent⟩, hid⟩,
      all', chunks', hstore', ⟨fr, hfr, hid⟩, cs, hcs, hpacked.refs, hpacked.bytes, hpacked.fits⟩

/-- A save that is cut off before its chunks are prepared leaves the tables alone. -/
theorem cut_saveFile (ideal : C.Ideal) (hintact : Intact C known cur vaultKey keys w)
    (config : PackerConfig) {source : Bytes}
    (hknown : ∀ p ∈ piecesOf config.chunkSize source.length source, known p)
    (expected : Option ℤ) {n : ℕ} (hn : n ≤ (preparation C config inodeId source).count w) :
    Carried C known cur vaultKey keys w ((saveFile C config inodeId source expected).cut n w) ∧
      ((saveFile C config inodeId source expected).cut n w).db = w.db := by
  have hcut : (saveFile C config inodeId source expected).cut n w =
      (preparation C config inodeId source).cut n w := by
    rw [saveFile, preparePack_eq, Prog.bind_assoc, Prog.cut_bind_of_le hn]
  have hslot := ((keeps_slot_preparation (C := C) w.vault.inner 0 config inodeId source).cut n
    (s := w) ⟨rfl, Nat.zero_le _⟩).1
  have hstored := fun all chunks
    (hstore : StoreInv C known cur vaultKey all chunks (w.opened keys)) => cut_preparation_slot
      ideal hintact.slot hstore config inodeId hknown n
  obtain ⟨all₀, chunks₀, hstore₀⟩ := hintact.store
  obtain ⟨-, -, -, hdb⟩ := hstored all₀ chunks₀ hstore₀
  rw [hcut]
  refine ⟨⟨?_, ?_, ?_, ?_, ?_, ?_⟩, hdb⟩
  · rw [hslot]
    exact hintact.slot
  · intro all chunks hstore
    obtain ⟨all', hall, hfiles, -⟩ := hstored all chunks hstore
    refine ⟨all', chunks, fun _ hc => hc, hfiles, ?_, ?_, fun c hc => hall c (hstore.subset c hc),
      hstore.nodup, hstore.fits⟩
    · rw [FileWorld.opened_db, hdb]
      exact hstore.tables
    · rw [FileWorld.opened_db, hdb]
      exact hstore.revisions
  · rw [hdb]
    exact hintact.history
  · rw [hdb]
    exact fun _ hi => hi
  · rw [hdb]
    exact fun r hr => ⟨r, hr, .refl r⟩
  · rw [hdb]
    exact fun _ _ => rfl

end Save

end OmniDrive
