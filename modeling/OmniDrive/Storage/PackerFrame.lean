import OmniDrive.Storage.Packer

/-!
# What the packer leaves alone

Preparing chunks touches the keys and the spool but no file table, and everything after it touches
the file tables but no key. Draws of the random tape are never taken back.
-/

namespace OmniDrive

open StatementProgram Tables Packer

variable {P : Primitives} {C : ChunkPrimitives P} {ε α : Type}

/-! ## The key store -/

/-- What a program keeps of the vault, it keeps as a part of the storage code. -/
theorem keeps_onVault {I : VaultWorld P → Prop} (toError : VaultError → ε) {p : VaultProg P α}
    (h : p.Keeps I) : (onVault toError p).Keeps fun w => I w.vault :=
  Prog.Keeps.zoom (fun _ _ => rfl) h.mapError

/-- The key store does not touch what does not depend on the vault. -/
theorem keeps_onVault_frame {J : FileWorld P → Prop} (hframe : ∀ w vault, J w → J { w with vault })
    (toError : VaultError → ε) (p : VaultProg P α) : (onVault toError p).Keeps J :=
  Prog.keeps_zoom_of_frame (fun vault w hw => hframe w vault hw) _

/-- A new pack DEK takes no draw back. -/
theorem keeps_createPackDek (inodeId : ℤ) (k : ℕ) :
    (VaultKeyStore.createPackDek inodeId : VaultProg P _).Keeps fun vault => k ≤ vault.draws := by
  have hdraw : ∀ vault : VaultWorld P, k ≤ vault.draws → k ≤ vault.draws + 1 :=
    fun _ h => Nat.le_succ_of_le h
  apply Prog.Keeps.bind
  · exact (Prog.Keeps.query _).bind fun _ => Prog.Keeps.ofOption _ _
  intro envelopeKey
  apply (Prog.Keeps.execReturning _ hdraw).bind
  intro dek
  apply (Prog.Keeps.query _).bind
  intro keyVersion
  apply Prog.Keeps.bind
  · exact (Prog.Keeps.query _).bind fun _ => trivial
  intro vaultKeyGen
  exact (Prog.Keeps.execReturning _ fun _ h => h).bind fun _ => trivial

/-! ## Preparing -/

section Prepare

variable {J : FileWorld P → Prop}
  (hspool : ∀ (w : FileWorld P) spool, J w → J { w with spool })
  (hdek : ∀ inodeId, (onVault PackerError.vault (VaultKeyStore.createPackDek inodeId)).Keeps J)
  (hnonce : (onVault PackerError.vault (draw (P := P) id)).Keeps J)

include hspool in
/-- Building shards touches the spool only. -/
theorem keeps_buildShardsFrom (mode : StorageMode) (packId : String) (index : ℕ)
    (bytes : List Bytes) : (buildShardsFrom C mode packId index bytes).Keeps J := by
  induction bytes generalizing index with
  | nil => trivial
  | cons b rest ih =>
    apply (Prog.Keeps.exec fun w h => hspool w _ h).bind
    intro _
    apply (Prog.Keeps.ofExcept _).bind
    intro _
    apply (Prog.Keeps.ofExcept _).bind
    intro _
    exact (ih (index + 1)).bind fun _ => trivial

include hspool hdek hnonce

/-- A new pack touches the keys and the spool only. -/
theorem keeps_newPack (inodeId : ℤ) (mode : StorageMode) (plaintextHash : String)
    (fileOffset plainSize : ℤ) (plaintext : Bytes) :
    (newPack C inodeId mode plaintextHash fileOffset plainSize plaintext).Keeps J := by
  apply (hdek inodeId).bind
  intro dek
  apply hnonce.bind
  intro nonceDraw
  apply (Prog.Keeps.exec fun w h => hspool w _ h).bind
  intro _
  apply (keeps_buildShardsFrom hspool mode _ 0 _).bind
  intro shards
  apply (Prog.Keeps.ofExcept _).bind
  intro cipherSize
  apply (Prog.Keeps.ofExcept _).bind
  intro shardSize
  exact (Prog.Keeps.ofExcept _).bind fun _ => trivial

/-- So does preparing all chunks of a file. -/
theorem keeps_prepareChunks (inodeId : ℤ) (mode : StorageMode) (fileOffset : ℤ)
    (plaintexts : List Bytes) : (prepareChunks C inodeId mode fileOffset plaintexts).Keeps J := by
  induction plaintexts generalizing fileOffset with
  | nil => trivial
  | cons plaintext rest ih =>
    apply Prog.Keeps.bind
    · apply (Prog.Keeps.ofExcept _).bind
      intro plainSize
      apply (Prog.Keeps.query _).bind
      intro existing
      cases existing with
      | some existing => exact Prog.Keeps.ofExcept _
      | none => exact keeps_newPack hspool hdek hnonce inodeId mode _ fileOffset _ plaintext
    · intro prepared
      apply (Prog.Keeps.ofExcept _).bind
      intro next
      exact (ih next).bind fun _ => trivial

end Prepare

/-! ## The statements on the file tables -/

section Vault

variable (I : VaultWorld P → Prop)

/-- Looking for a free name does not touch the vault. -/
theorem keeps_createConflictInode (parentId : Option ℤ) (baseName kind : String) (size : ℤ)
    (left attempt : ℕ) : (Db.createConflictInode (P := P) parentId baseName kind size left
      attempt).Keeps fun w => I w.vault := by
  have hinsert : ∀ name (w : FileWorld P), I w.vault → I (if Db.nameTaken parentId name w.db then w
      else { w with db := Db.appendInode parentId name kind size w.db }).vault := by
    intro name w h
    split
    · exact h
    · exact h
  induction left generalizing attempt with
  | zero => trivial
  | succ left ih =>
    apply Prog.Keeps.bind
    · apply Prog.Keeps.attempt
      apply (Prog.Keeps.ofExcept _).bind
      intro _
      apply (Prog.Keeps.execReturning _ (hinsert _)).bind
      intro created
      exact Prog.Keeps.ofOption _ _
    · intro created
      match created with
      | .ok inodeId => trivial
      | .error .uniqueViolation => exact ih (attempt + 1)
      | .error .rowNotFound => trivial
      | .error .foreignKeyViolation => trivial
      | .error .unavailable => trivial
      | .error (.invalidArgument _) => trivial

/-- Neither does a conflict copy. -/
theorem keeps_materializeConflictCopy (sourceRevisionId : ℤ) (deviceId : Option String)
    (deviceName reason : String) : (Db.materializeConflictCopyFromRevision (P := P)
      sourceRevisionId deviceId deviceName reason).Keeps fun w => I w.vault := by
  apply (Prog.Keeps.query _).bind
  intro source
  apply (Prog.Keeps.ofOption _ _).bind
  intro source
  apply (Prog.Keeps.query _).bind
  intro inode
  apply (Prog.Keeps.ofOption _ _).bind
  intro inode
  apply (keeps_createConflictInode I _ _ _ _ _ _).bind
  intro created
  apply (Prog.Keeps.ofOption _ _).bind
  intro created
  apply (Prog.Keeps.execReturning _ fun _ h => h).bind
  intro revisionId
  apply (Prog.Keeps.exec fun _ h => h).bind
  intro _
  apply (Prog.Keeps.execReturning _ fun _ h => h).bind
  intro conflictId
  exact (Prog.Keeps.exec fun _ h => h).bind fun _ => trivial

/-- Nor finding the parent of the new revision. -/
theorem keeps_resolveParent (current : Option FileRevisionRecord) (deviceId : Option String)
    (deviceName : String) (expected : Option ℤ) :
    (resolveParent (P := P) current deviceId deviceName expected).Keeps fun w => I w.vault := by
  cases expected with
  | none => trivial
  | some expected =>
    cases current with
    | none => trivial
    | some current =>
      apply Prog.Keeps.bind
      · unfold Db.classifyRevisionLineage
        split
        · trivial
        · apply (Prog.Keeps.query _).bind
          intro descends
          split
          · trivial
          · apply (Prog.Keeps.query _).bind
            intro ascends
            split <;> trivial
      · intro lineage
        cases conflictReason lineage with
        | none => trivial
        | some reason =>
          apply Prog.Keeps.bind
          · exact (keeps_materializeConflictCopy I _ _ _ _).mapError
          · exact fun _ => trivial

/-- Registering shards does not touch the vault. -/
theorem keeps_registerShards (packId : String) (shards : List PreparedShard) :
    (registerShards packId shards : FileProg P ε Unit).Keeps fun w => I w.vault := by
  induction shards with
  | nil => trivial
  | cons shard rest ih => exact (Prog.Keeps.exec fun _ h => h).bind fun _ => ih

/-- Neither does writing a chunk. -/
theorem keeps_writeChunk (revisionId : ℤ) (pack : PreparedPack) :
    (writeChunk revisionId pack : FileProg P PackerError Unit).Keeps fun w => I w.vault := by
  apply (Prog.Keeps.execReturning _ fun _ h => h).bind
  intro _
  apply (Prog.Keeps.exec fun _ h => h).bind
  intro _
  split
  · trivial
  · apply (Prog.Keeps.exec fun _ h => h).bind
    intro _
    apply Prog.Keeps.bind
    · cases pack.dekId with
      | some dekId => exact Prog.Keeps.exec fun _ h => h
      | none => trivial
    · intro _
      apply (keeps_registerShards I _ _).bind
      intro _
      split
      · exact Prog.Keeps.exec fun _ h => h
      · trivial

/-- Nor writing all of them. -/
theorem keeps_writeChunks (revisionId : ℤ) (packs : List PreparedPack) :
    (writeChunks revisionId packs : FileProg P PackerError Unit).Keeps fun w => I w.vault := by
  induction packs with
  | nil => trivial
  | cons pack rest ih => exact (keeps_writeChunk I revisionId pack).bind fun _ => ih

end Vault

/-- The packer takes no draw back. -/
theorem keeps_packFileWithExpectedParent (config : PackerConfig) (inodeId : ℤ) (source : Bytes)
    (expected : Option ℤ) (k : ℕ) :
    (packFileWithExpectedParent C config inodeId source expected).Keeps
      fun w => k ≤ w.vault.draws := by
  have hdevice : (onVault PackerError.vault (Db.getLocalDeviceIdentity (P := P))).Keeps
      fun w => k ≤ w.vault.draws :=
    keeps_onVault (I := fun vault => k ≤ vault.draws) _ (Prog.Keeps.query _)
  apply Prog.Keeps.bind
  · apply (Prog.Keeps.query _).bind
    intro mode
    apply Prog.Keeps.bind
    · apply keeps_prepareChunks (fun _ _ h => h)
      · exact fun inodeId => keeps_onVault _ (keeps_createPackDek inodeId k)
      · exact keeps_onVault _ (Prog.Keeps.execReturning _ fun _ h => Nat.le_succ_of_le h)
    intro prepared
    apply hdevice.bind
    intro device
    apply (Prog.Keeps.query _).bind
    intro current
    exact (keeps_resolveParent (fun vault => k ≤ vault.draws) _ _ _ _).bind fun _ => trivial
  · intro prepared
    apply (Prog.Keeps.ofExcept _).bind
    intro logicalSize
    apply (Prog.Keeps.execReturning _ fun _ h => h).bind
    intro revisionId
    exact (keeps_writeChunks (fun vault => k ≤ vault.draws) _ _).bind fun _ => trivial

end OmniDrive
