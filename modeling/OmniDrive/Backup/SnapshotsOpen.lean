import OmniDrive.Backup.Snapshot
import OmniDrive.Backup.VaultTasks
import OmniDrive.Library.GuardedRuns

/-!
# Snapshots open with the passphrase in force

A run of the metadata backup between the statements of operations on the vault. The run is given
the master key in memory when it starts, and reads the salt for the header after the snapshot. The
object that it uploads opens with the passphrase in force when no operation has replaced the salt
in between.
-/

namespace OmniDrive

open StatementProgram Tables VaultKeyStore

variable {P : Primitives} {M : MnemonicScheme P}

namespace Backup

/-! ## The vault and a backup -/

/-- The vault, the operations in progress on it, and a backup of its tables. -/
structure BackupSystem (M : MnemonicScheme P) where
  vault : RecoveryRun M
  tasks : List (Prog (RecoveryRun M) Unit Unit) := []
  backup : BackupRun P
  /-- The passphrases in force since the backup was started, the last one first. -/
  moments : List String := []

/-- The start of an operation on the vault, the next statement of one, the start of a backup with
the master key in memory, or its next statement. -/
inductive SystemOp where
  | begin (op : VaultOp)
  | vaultStep (i : ℕ)
  | startBackup (targets : List BackupTarget)
  | backupStep (answer : Answer)

/-- The system after a statement on the vault. -/
def BackupSystem.withVault (vault : RecoveryRun M) (s : BackupSystem M) : BackupSystem M :=
  { s with
    vault
    backup := s.backup.put { s.backup.world with
      db := { s.backup.world.db with vault := vault.world.vault.db } } s.backup.point
    moments := vault.passphrase :: s.moments }

def SystemOp.apply (op : SystemOp) (s : BackupSystem M) : BackupSystem M :=
  match op with
  | .begin op => { s with tasks := s.tasks ++ [op.program s.vault.session] }
  | .vaultStep i => match s.tasks[i]? with
    | some (.stmt upd next) =>
      { s.withVault (upd s.vault) with tasks := s.tasks.set i (next s.vault) }
    | some _ => { s with tasks := s.tasks.eraseIdx i }
    | none => s
  | .startBackup targets => match s.vault.world.vault.inner with
    | some keys =>
      if s.backup.point.isIdle then
        { s with
          backup := { s.backup with targets, point := .vaultState keys.masterKey }
          moments := [s.vault.passphrase] }
      else s
    | none => s
  | .backupStep answer => { s with backup := s.backup.step answer }

/-! ## Objects that open -/

/-- The passphrase unlocks the vault row of the database with its KDF row. -/
def DbUnlocks (passphrase : String) (db : VaultDb P) : Prop :=
  ∃ root v wrapped e, RootKeysFor db passphrase root ∧ db.vaultState = some v ∧
    v.encryptedVaultKey = some (.exact wrapped) ∧ unwrapKey root.kek wrapped = .ok e

/-- The passphrase decrypts the object with the parameters in its header, to a database that it
unlocks. -/
def BackupObject.OpensWith (object : BackupObject P) (passphrase : String) : Prop :=
  ∃ root, deriveRootKeys P passphrase object.kdf = some root ∧
    object.key = deriveMetadataBackupKey root.masterKey ∧
    DbUnlocks passphrase object.snapshot.vault

/-- A passphrase that opens an object decrypts the bytes of a file under its key and header. -/
theorem openBackup_of_opensWith {C : ChunkPrimitives P} (ideal : P.Ideal) (idealC : C.Ideal)
    {plan : BackupPlan P} {kdf : RootKdfParams} {snapshot : MetadataDb P}
    {object : BackupObject P} {passphrase : String}
    (hseal : sealSnapshot plan kdf snapshot = .ok object) (hopens : object.OpensWith passphrase)
    (hfits : FitsHeader kdf) (nonceDraw : ℕ) (input : Bytes) :
    ∃ encoded, encryptMetadataSnapshot C plan.masterKey kdf nonceDraw input = .ok encoded ∧
      openBackup C passphrase encoded = .ok input := by
  rw [eq_of_sealSnapshot hseal] at hopens
  obtain ⟨root, hderive, hkey, -⟩ := hopens
  have hmaster : plan.masterKey = root.masterKey := (ideal.hkdfExpand_inj hkey).1
  rw [hmaster]
  exact openBackup_encrypt C idealC hderive hfits nonceDraw input

/-- The plan of a run that is about to upload. -/
def BackupPoint.uploads : BackupPoint P → Option (BackupPlan P)
  | .uploadSnapshot plan _ _ _ _ | .uploadLatest plan _ _ _ => some plan
  | _ => none

/-- What a run is about to upload opens with a passphrase in force during the run. -/
def UploadsOpen (s : BackupSystem M) : Prop :=
  ∀ plan object, s.backup.point.uploads = some plan →
    s.backup.world.encrypted plan.stamp = some object →
    ∃ passphrase ∈ s.moments, object.OpensWith passphrase

/-- A run that has returned has left no plaintext snapshot. -/
def PlaintextDeleted (s : BackupSystem M) : Prop :=
  ∀ result, s.backup.point = .returned result → ∀ stamp, s.backup.world.plaintext stamp = none

/-- The first unlock has made the vault, and nothing else has happened. -/
structure SystemStart (passphrase : String) (s : BackupSystem M) : Prop where
  unlocked : FirstUnlocked passphrase s.vault
  tasks : s.tasks = []
  point : s.backup.point = .idle
  synced : s.backup.world.db.vault = s.vault.world.vault.db
  plaintext : ∀ stamp, s.backup.world.plaintext stamp = none

/-- The operations on the vault come one after another, outside of the time between the start of
a backup and its reading of the salt, a lock or an unlock apart. The statements on the plaintext
file do not fail halfway, nor does the reading of the salt. -/
def SystemOp.Guarded (op : SystemOp) (s : BackupSystem M) : Prop :=
  match op with
  | .begin op => s.tasks = [] ∧ op.KeepsReady s.vault ∧
    (s.backup.point.awaitsKdf = true → op.isQuiet = true)
  | .vaultStep _ => True
  | .startBackup _ => s.tasks = []
  | .backupStep answer => match s.backup.point with
    | .vacuum _ => answer.refused.isSome → answer.effect = false
    | .kdfParams _ | .deletePlaintext _ _ => answer.refused = none
    | _ => True

/-! ## The invariant -/

/-- The master key, the two rows and the passphrase belong together. -/
def Matches (masterKey : P.Key) (config : VaultConfigRecord) (v : VaultRecord P)
    (passphrase : String) : Prop :=
  ∃ params root wrapped e, toRootKdfParams config = .ok params ∧
    deriveRootKeys P passphrase params = some root ∧ root.masterKey = masterKey ∧
    v.encryptedVaultKey = some (.exact wrapped) ∧ unwrapKey root.kek wrapped = .ok e

/-- Nothing is in progress on a ready vault, or one operation that has met a ready one. -/
def TasksOk (s : BackupSystem M) : Prop :=
  s.tasks = [] ∧ VaultReady s.vault ∨
    ∃ p op s₀, s.tasks = [p] ∧ VaultReady s₀ ∧ VaultOp.KeepsReady op s₀ ∧
      p.run s.vault = (op.program s₀.session).run s₀ ∧
      (s.backup.point.awaitsKdf = true → ∀ config v wrapped passphrase,
        v.encryptedVaultKey = some (.exact wrapped) → RunRows config v passphrase s.vault →
        p.Keeps (RunRows config v passphrase))

/-- The rows of the vault are those of the master key that the run was given. -/
def WindowRows (masterKey : P.Key) (config : VaultConfigRecord) (v : VaultRecord P)
    (passphrase : String) (s : BackupSystem M) : Prop :=
  passphrase ∈ s.moments ∧ Matches masterKey config v passphrase ∧
    RunRows config v passphrase s.vault

/-- No plaintext file is left but the one of the stamp. -/
def OnlyPlaintext (stamp : ℤ) (s : BackupSystem M) : Prop :=
  ∀ other, other ≠ stamp → s.backup.world.plaintext other = none

def NoPlaintext (s : BackupSystem M) : Prop := ∀ stamp, s.backup.world.plaintext stamp = none

/-- The encrypted file opens with a passphrase in force during the run. -/
def EncryptedOpens (plan : BackupPlan P) (s : BackupSystem M) : Prop :=
  ∀ object, s.backup.world.encrypted plan.stamp = some object →
    ∃ passphrase ∈ s.moments, object.OpensWith passphrase

/-- What holds at each point of a run. -/
def BackupOk (s : BackupSystem M) : Prop :=
  match s.backup.point with
  | .vaultState masterKey | .vaultConfig masterKey _ | .inodeCount masterKey _ _
  | .dekCount masterKey _ _ _ | .previousInodeCount masterKey _
  | .previousDekCount masterKey _ _ =>
    NoPlaintext s ∧ ∃ config v passphrase, WindowRows masterKey config v passphrase s
  | .clearFiles plan | .vacuum plan =>
    NoPlaintext s ∧ ∃ config v passphrase, WindowRows plan.masterKey config v passphrase s
  | .kdfParams plan => OnlyPlaintext plan.stamp s ∧
    ∃ config v passphrase, WindowRows plan.masterKey config v passphrase s ∧
      ∀ snapshot, s.backup.world.plaintext plan.stamp = some snapshot →
        snapshot.vault.vaultConfig = some config ∧ snapshot.vault.vaultState = some v
  | .encrypt plan kdf => OnlyPlaintext plan.stamp s ∧
    ∃ passphrase ∈ s.moments, ∃ root, deriveRootKeys P passphrase kdf = some root ∧
      root.masterKey = plan.masterKey ∧
      ∀ snapshot, s.backup.world.plaintext plan.stamp = some snapshot →
        DbUnlocks passphrase snapshot.vault
  | .deletePlaintext plan encrypted => OnlyPlaintext plan.stamp s ∧
    (encrypted = .ok () → EncryptedOpens plan s)
  | .encryptedSize plan | .recordAttempt plan _ _ _ | .uploadSnapshot plan _ _ _ _
  | .uploadLatest plan _ _ _ | .updateStatus plan _ _ _ _ =>
    NoPlaintext s ∧ EncryptedOpens plan s
  | _ => NoPlaintext s

/-- The invariant of the system. -/
structure SystemOk (s : BackupSystem M) : Prop where
  synced : s.backup.world.db.vault = s.vault.world.vault.db
  tasks : TasksOk s
  backup : BackupOk s

/-! ## The rows of the window -/

section Window

variable {s : BackupSystem M} {config : VaultConfigRecord} {v : VaultRecord P}
variable {masterKey : P.Key} {passphrase : String} {db : VaultDb P}

/-- A database with the two rows is unlocked by the passphrase. -/
theorem dbUnlocks_of_matches (h : Matches masterKey config v passphrase)
    (hconfig : db.vaultConfig = some config) (hstate : db.vaultState = some v) :
    DbUnlocks passphrase db := by
  obtain ⟨params, root, wrapped, e, hparams, hderive, -, hkey, hopen⟩ := h
  exact ⟨root, v, wrapped, e, ⟨config, params, hconfig, hparams, hderive⟩, hstate, hkey, hopen⟩

/-- The parameters for the header are those of the key derivation. -/
theorem headerKdfParams_of_toRootKdfParams {params : RootKdfParams}
    (h : toRootKdfParams config = .ok params) : headerKdfParams (some config) = .ok params := by
  obtain ⟨hrecord, hversion, hmemory, htime, hlanes⟩ := toRootKdfParams_eq_ok.mp h
  have hfield : ∀ (field : String) (n : ℕ), n < 2 ^ 32 → u32Field field n = .ok n := by
    intro field n hn
    have hfits : 0 ≤ (n : ℤ) ∧ (n : ℤ) < 2 ^ 32 := by omega
    rw [u32Field, if_pos hfits, Int.toNat_natCast]
  rw [hrecord, headerKdfParams, RootKdfParams.toRecord]
  simp only [Prog.except_ok_bind, hfield _ _ hversion, hfield _ _ hmemory, hfield _ _ htime,
    hfield _ _ hlanes, Pure.pure, Except.pure]

/-- A ready and unlocked vault has the rows of its master key. -/
theorem matches_of_vaultReady (ideal : P.Ideal) {vault : RecoveryRun M}
    {keys : UnlockedVaultKeys P} (h : VaultReady vault) (hkeys : vault.world.vault.inner = some keys) :
    ∃ config v, RunRows config v vault.passphrase vault ∧
      Matches keys.masterKey config v vault.passphrase := by
  obtain ⟨⟨-, root, e, hroot, hvault⟩, hmaster⟩ := h
  obtain ⟨config, params, hconfig, hparams, hderive⟩ := id hroot
  obtain ⟨v, hv, hkey⟩ := hvault.stored
  refine ⟨config, v, ⟨⟨hconfig, hv⟩, rfl⟩, params, root, _, e, hparams, hderive, ?_, hkey, ?_⟩
  · exact (hmaster keys root hkeys hroot).symm
  · exact ideal.unwrapKey_wrapKey root.kek e

end Window

/-! ## Statements of a backup -/

section Backups

variable {vault : RecoveryRun M} {tasks : List (Prog (RecoveryRun M) Unit Unit)}
variable {moments : List String} {w : BackupWorld P} {targets : List BackupTarget}
variable {plan : BackupPlan P} {answer : Answer}

/-- The system with the world of a backup and where it is. -/
abbrev systemAt (vault : RecoveryRun M) (tasks : List (Prog (RecoveryRun M) Unit Unit))
    (moments : List String) (targets : List BackupTarget) (w : BackupWorld P)
    (point : BackupPoint P) : BackupSystem M :=
  { vault, tasks, backup := { world := w, targets, point }, moments }

/-- The next target finds the encrypted file as it is. -/
theorem backupOk_nextTarget {up : UploadProgress} {rest : List BackupTarget}
    (hnone : NoPlaintext (systemAt vault tasks moments targets w .idle))
    (hopens : EncryptedOpens plan (systemAt vault tasks moments targets w .idle)) :
    BackupOk (systemAt vault tasks moments targets w (nextTarget plan up rest)) := by
  cases rest with
  | nil => exact hnone
  | cons target rest => exact ⟨hnone, hopens⟩

/-- The plaintext file of a plan, put or taken away. -/
theorem plaintext_setPlaintext (stamp other : ℤ) (file : Option (MetadataDb P)) :
    (w.setPlaintext stamp file).plaintext other =
      if other = stamp then file else w.plaintext other := by
  rw [BackupWorld.setPlaintext]
  exact Function.update_apply _ _ _ _

/-- Without the file of its stamp, no plaintext is left. -/
theorem noPlaintext_of_delete {point : BackupPoint P} (stamp : ℤ)
    (h : ∀ other, other ≠ stamp → w.plaintext other = none) :
    NoPlaintext (systemAt vault tasks moments targets (w.setPlaintext stamp none) point) := by
  intro other
  show (w.setPlaintext stamp none).plaintext other = none
  rw [plaintext_setPlaintext]
  split
  · rfl
  · rename_i hother
    exact h other hother

/-- The snapshot is the database with the two rows. -/
theorem backupOk_vacuum
    (h : BackupOk (systemAt vault tasks moments targets w (.vacuum plan)))
    (hsynced : w.db.vault = vault.world.vault.db)
    (hguard : answer.refused.isSome → answer.effect = false) :
    BackupOk { systemAt vault tasks moments targets w (.vacuum plan) with
      backup := BackupRun.step answer ⟨w, targets, .vacuum plan⟩ } := by
  obtain ⟨hnone, config, v, passphrase, hrows⟩ := h
  rw [BackupRun.step]
  cases hrefused : answer.refused with
  | some message =>
    dsimp only
    rw [if_neg (by rw [hguard (by rw [hrefused]; rfl)]; decide)]
    exact hnone
  | none =>
    refine ⟨?_, config, v, passphrase, hrows, ?_⟩
    · intro other hother
      show (w.setPlaintext plan.stamp (some w.db)).plaintext other = none
      rw [plaintext_setPlaintext, if_neg hother]
      exact hnone other
    · intro snapshot hsnapshot
      have hstored : (w.setPlaintext plan.stamp (some w.db)).plaintext plan.stamp =
          some snapshot := hsnapshot
      rw [plaintext_setPlaintext, if_pos rfl] at hstored
      cases hstored
      rw [hsynced]
      exact hrows.2.2.1

/-- The salt is read while the rows are still those of the snapshot. -/
theorem backupOk_kdfParams
    (h : BackupOk (systemAt vault tasks moments targets w (.kdfParams plan)))
    (hsynced : w.db.vault = vault.world.vault.db) (hguard : answer.refused = none) :
    BackupOk { systemAt vault tasks moments targets w (.kdfParams plan) with
      backup := BackupRun.step answer ⟨w, targets, .kdfParams plan⟩ } := by
  obtain ⟨honly, config, v, passphrase, ⟨hmoment, hmatches, hrows⟩, hsnapshot⟩ := h
  obtain ⟨params, root, wrapped, e, hparams, hderive, hmaster, -⟩ := id hmatches
  have hheader : headerKdfParams w.db.vault.vaultConfig = .ok params := by
    rw [hsynced, hrows.1.1]
    exact headerKdfParams_of_toRootKdfParams hparams
  rw [BackupRun.step]
  dsimp only
  rw [hguard]
  dsimp only
  rw [hheader]
  refine ⟨honly, passphrase, hmoment, root, hderive, hmaster, ?_⟩
  intro snapshot hfile
  obtain ⟨hconfig, hstate⟩ := hsnapshot snapshot hfile
  exact dbUnlocks_of_matches hmatches hconfig hstate

/-- The object opens with the passphrase of its plaintext. -/
theorem backupOk_encrypt {kdf : RootKdfParams}
    (h : BackupOk (systemAt vault tasks moments targets w (.encrypt plan kdf))) :
    BackupOk { systemAt vault tasks moments targets w (.encrypt plan kdf) with
      backup := BackupRun.step answer ⟨w, targets, .encrypt plan kdf⟩ } := by
  obtain ⟨honly, passphrase, hmoment, root, hderive, hmaster, hunlocks⟩ := h
  have hfailed : ∀ err, BackupOk (systemAt vault tasks moments targets w
      (.deletePlaintext plan (.error err))) := fun err => ⟨honly, fun hok => by cases hok⟩
  rw [BackupRun.step]
  dsimp only
  split
  · exact hfailed _
  · exact hfailed _
  · rename_i snapshot hrefused hplaintext
    split
    · exact hfailed _
    · rename_i object hobject
      refine ⟨honly, fun _ => ?_⟩
      intro stored hstored
      have heq : object = stored := by
        simpa [BackupRun.put, BackupWorld.setEncrypted] using hstored
      rw [← heq, eq_of_sealSnapshot hobject]
      refine ⟨passphrase, hmoment, root, hderive, ?_, hunlocks snapshot hplaintext⟩
      rw [hmaster]

/-- The plaintext file goes before the run does. -/
theorem backupOk_deletePlaintext {encrypted : BackupResult}
    (h : BackupOk (systemAt vault tasks moments targets w (.deletePlaintext plan encrypted)))
    (hguard : answer.refused = none) :
    BackupOk { systemAt vault tasks moments targets w (.deletePlaintext plan encrypted) with
      backup := BackupRun.step answer ⟨w, targets, .deletePlaintext plan encrypted⟩ } := by
  obtain ⟨honly, hopens⟩ := h
  rw [BackupRun.step]
  dsimp only
  rw [hguard, if_neg (by decide)]
  cases encrypted with
  | error err => exact noPlaintext_of_delete plan.stamp honly
  | ok done => exact ⟨noPlaintext_of_delete plan.stamp honly, hopens rfl⟩

/-- What a statement of a backup leaves, where it meets its guard. -/
theorem backupOk_step {s : BackupSystem M} (h : BackupOk s)
    (hsynced : s.backup.world.db.vault = s.vault.world.vault.db)
    (hguard : (SystemOp.backupStep answer).Guarded s) :
    BackupOk { s with backup := s.backup.step answer } := by
  obtain ⟨vault, tasks, ⟨w, targets, point⟩, moments⟩ := s
  cases point with
  | idle => exact h
  | returned result => exact h
  | vaultState masterKey =>
    rw [BackupRun.step]
    cases answer.refused with
    | some message => exact h.1
    | none => exact h
  | vaultConfig masterKey hasVaultState =>
    rw [BackupRun.step]
    cases answer.refused with
    | some message => exact h.1
    | none => exact h
  | inodeCount masterKey hasVaultState hasVaultConfig =>
    rw [BackupRun.step]
    cases answer.refused with
    | some message => exact h.1
    | none => exact h
  | dekCount masterKey hasVaultState hasVaultConfig inodeCount =>
    rw [BackupRun.step]
    cases answer.refused with
    | some message => exact h.1
    | none => exact h
  | previousInodeCount masterKey health =>
    rw [BackupRun.step]
    cases answer.refused with
    | some message => exact h.1
    | none => exact h
  | previousDekCount masterKey health previous =>
    rw [BackupRun.step]
    cases answer.refused with
    | some message => exact h.1
    | none => exact h
  | clearFiles plan =>
    rw [BackupRun.step]
    cases answer.refused with
    | some message => exact h.1
    | none => exact ⟨noPlaintext_of_delete plan.stamp fun other _ => h.1 other, h.2⟩
  | vacuum plan => exact backupOk_vacuum h hsynced hguard
  | kdfParams plan => exact backupOk_kdfParams h hsynced hguard
  | encrypt plan kdf => exact backupOk_encrypt h
  | deletePlaintext plan encrypted => exact backupOk_deletePlaintext h hguard
  | giveUp plan err =>
    rw [BackupRun.step]
    dsimp only
    split <;> exact h
  | encryptedSize plan =>
    rw [BackupRun.step]
    dsimp only
    split
    · exact h.1
    · cases answer.refused with
      | some message => exact h.1
      | none => exact backupOk_nextTarget h.1 h.2
  | recordAttempt plan up target rest =>
    rw [BackupRun.step]
    cases answer.refused with
    | some message => exact h.1
    | none => exact h
  | uploadSnapshot plan up target rest attempt =>
    rw [BackupRun.step]
    dsimp only
    repeat' split
    all_goals exact h
  | uploadLatest plan up target rest =>
    rw [BackupRun.step]
    dsimp only
    repeat' split
    all_goals exact h
  | updateStatus plan up target rest lastError =>
    rw [BackupRun.step]
    cases answer.refused with
    | some message => exact h.1
    | none =>
      cases lastError with
      | none => exact backupOk_nextTarget h.1 h.2
      | some text => exact backupOk_nextTarget h.1 h.2
  | deleteEncrypted plan result =>
    have hnone : NoPlaintext (systemAt vault tasks moments targets w
        (.deleteEncrypted plan result)) := h
    rw [BackupRun.step]
    dsimp only
    repeat' split
    all_goals exact hnone
  | writeInodeCount plan =>
    rw [BackupRun.step]
    cases answer.refused <;> exact h
  | writeDekCount plan =>
    rw [BackupRun.step]
    cases answer.refused <;> exact h

end Backups

/-! ## Statements on the vault -/

section Vault

variable {s : BackupSystem M} {vault' : RecoveryRun M}

/-- A statement on the vault that keeps the two rows while the salt is awaited keeps what holds of
the backup. -/
theorem backupOk_withVault (h : BackupOk s)
    (hrows : s.backup.point.awaitsKdf = true → ∀ config v wrapped passphrase,
      v.encryptedVaultKey = some (.exact wrapped) → RunRows config v passphrase s.vault →
      RunRows config v passphrase vault') : BackupOk (s.withVault vault') := by
  obtain ⟨vault, tasks, ⟨w, targets, point⟩, moments⟩ := s
  have hwindow : point.awaitsKdf = true → ∀ masterKey config v passphrase,
      WindowRows masterKey config v passphrase (systemAt vault tasks moments targets w point) →
      WindowRows masterKey config v passphrase
        ((systemAt vault tasks moments targets w point).withVault vault') := by
    intro hawaits masterKey config v passphrase ⟨hmoment, hmatches, hrun⟩
    obtain ⟨_, _, wrapped, _, -, -, -, hkey, -⟩ := id hmatches
    exact ⟨List.mem_cons_of_mem _ hmoment, hmatches, hrows hawaits config v wrapped _ hkey hrun⟩
  have hencrypted : ∀ plan : BackupPlan P,
      EncryptedOpens plan (systemAt vault tasks moments targets w point) →
      EncryptedOpens plan ((systemAt vault tasks moments targets w point).withVault vault') := by
    intro plan hopens object hobject
    obtain ⟨passphrase, hmoment, hopen⟩ := hopens object hobject
    exact ⟨passphrase, List.mem_cons_of_mem _ hmoment, hopen⟩
  cases point with
  | vaultState masterKey | vaultConfig masterKey _ | inodeCount masterKey _ _
  | dekCount masterKey _ _ _ | previousInodeCount masterKey _
  | previousDekCount masterKey _ _ =>
    obtain ⟨hnone, config, v, passphrase, hrun⟩ := h
    exact ⟨hnone, config, v, passphrase, hwindow rfl _ _ _ _ hrun⟩
  | clearFiles plan | vacuum plan =>
    obtain ⟨hnone, config, v, passphrase, hrun⟩ := h
    exact ⟨hnone, config, v, passphrase, hwindow rfl _ _ _ _ hrun⟩
  | kdfParams plan =>
    obtain ⟨honly, config, v, passphrase, hrun, hsnapshot⟩ := h
    exact ⟨honly, config, v, passphrase, hwindow rfl _ _ _ _ hrun, hsnapshot⟩
  | encrypt plan kdf =>
    obtain ⟨honly, passphrase, hmoment, hrest⟩ := h
    exact ⟨honly, passphrase, List.mem_cons_of_mem _ hmoment, hrest⟩
  | deletePlaintext plan encrypted => exact ⟨h.1, fun hok => hencrypted plan (h.2 hok)⟩
  | encryptedSize plan | recordAttempt plan _ _ _ | uploadSnapshot plan _ _ _ _
  | uploadLatest plan _ _ _ | updateStatus plan _ _ _ _ => exact ⟨h.1, hencrypted plan h.2⟩
  | _ => exact h

end Vault

/-! ## Every operation -/

section Operations

variable {s : BackupSystem M}

/-- While the salt is awaited, the rows are those of the master key. -/
theorem windowRows_of_awaitsKdf (h : BackupOk s) (hawaits : s.backup.point.awaitsKdf = true) :
    ∃ masterKey config v passphrase, WindowRows masterKey config v passphrase s := by
  obtain ⟨vault, tasks, ⟨w, targets, point⟩, moments⟩ := s
  cases point with
  | vaultState masterKey | vaultConfig masterKey _ | inodeCount masterKey _ _
  | dekCount masterKey _ _ _ | previousInodeCount masterKey _
  | previousDekCount masterKey _ _ => exact ⟨masterKey, h.2⟩
  | clearFiles plan | vacuum plan => exact ⟨plan.masterKey, h.2⟩
  | kdfParams plan =>
    obtain ⟨-, config, v, passphrase, hrows, -⟩ := h
    exact ⟨plan.masterKey, config, v, passphrase, hrows⟩
  | _ => cases hawaits

theorem noPlaintext_of_isIdle (h : BackupOk s) (hidle : s.backup.point.isIdle = true) :
    NoPlaintext s := by
  obtain ⟨vault, tasks, ⟨w, targets, point⟩, moments⟩ := s
  cases point with
  | idle => exact h
  | returned result => exact h
  | _ => cases hidle

/-- An operation starts on a ready vault. -/
theorem systemOk_begin {op : VaultOp} (h : SystemOk s)
    (hguard : (SystemOp.begin op).Guarded s) : SystemOk ((SystemOp.begin op).apply s) := by
  obtain ⟨hnone, hkeeps, hquiet⟩ := hguard
  have hready : VaultReady s.vault := by
    rcases h.tasks with ⟨-, hready⟩ | ⟨p, op', s₀, htasks, -⟩
    · exact hready
    · rw [hnone] at htasks
      cases htasks
  constructor
  · exact h.synced
  · refine Or.inr ⟨op.program s.vault.session, op, s.vault, ?_, hready, hkeeps, rfl, ?_⟩
    · rw [SystemOp.apply, hnone]
      rfl
    · intro hawaits config v wrapped passphrase hkey _
      exact keeps_program_of_isQuiet (hquiet hawaits) hkey _ _
  · exact h.backup

/-- A finished operation leaves a ready vault. -/
theorem tasksOk_finished (ideal : P.Ideal) {p : Prog (RecoveryRun M) Unit Unit} {op : VaultOp}
    {s₀ : RecoveryRun M} (hready : VaultReady s₀) (hkeeps : op.KeepsReady s₀)
    (hrun : p.run s.vault = (op.program s₀.session).run s₀) (hdone : (p.run s.vault).2 = s.vault) :
    TasksOk { s with tasks := [] } := by
  have hafter := vaultReady_program ideal hready hkeeps
  rw [← hrun, hdone] at hafter
  exact Or.inl ⟨rfl, hafter⟩

/-- A statement of an operation brings it on. -/
theorem systemOk_stmt {upd : RecoveryRun M → RecoveryRun M}
    {next : RecoveryRun M → Prog (RecoveryRun M) Unit Unit} {op : VaultOp} {s₀ : RecoveryRun M}
    (h : SystemOk s) (hready : VaultReady s₀) (hkeeps : op.KeepsReady s₀)
    (hrun : (Prog.stmt upd next).run s.vault = (op.program s₀.session).run s₀)
    (hquiet : s.backup.point.awaitsKdf = true → ∀ config v wrapped passphrase,
      v.encryptedVaultKey = some (.exact wrapped) → RunRows config v passphrase s.vault →
      (Prog.stmt upd next).Keeps (RunRows config v passphrase)) :
    SystemOk { s.withVault (upd s.vault) with tasks := [next s.vault] } := by
  constructor
  · rfl
  · refine Or.inr ⟨next s.vault, op, s₀, rfl, hready, hkeeps, hrun, ?_⟩
    intro hawaits config v wrapped passphrase hkey hrows
    obtain ⟨masterKey, config', v', passphrase', -, hmatches, hrows'⟩ :=
      windowRows_of_awaitsKdf h.backup hawaits
    obtain ⟨_, _, wrapped', _, -, -, -, hkey', -⟩ := hmatches
    obtain ⟨hkept, hnext⟩ := hquiet hawaits config' v' wrapped' passphrase' hkey' hrows' _ hrows'
    -- the rows behind the statement are the rows before it
    have hconfig : config = config' := Option.some.inj (hrows.1.1.symm.trans hkept.1.1)
    have hv : v = v' := Option.some.inj (hrows.1.2.symm.trans hkept.1.2)
    have hpassphrase : passphrase = passphrase' := hrows.2.symm.trans hkept.2
    rw [hconfig, hv, hpassphrase]
    exact hnext
  · apply backupOk_withVault h.backup
    intro hawaits config v wrapped passphrase hkey hrows
    exact (hquiet hawaits config v wrapped passphrase hkey hrows _ hrows).1

/-- A statement on the vault brings its operation on, or ends it. -/
theorem systemOk_vaultStep (ideal : P.Ideal) (h : SystemOk s) (i : ℕ) :
    SystemOk ((SystemOp.vaultStep i).apply s) := by
  rcases h.tasks with ⟨hnone, hready⟩ | ⟨p, op, s₀, htasks, hready, hkeeps, hrun, hquiet⟩
  · have hidle : (SystemOp.vaultStep i).apply s = s := by
      rw [SystemOp.apply, hnone]
      rfl
    rw [hidle]
    exact h
  · cases i with
    | succ i =>
      have hidle : (SystemOp.vaultStep (i + 1)).apply s = s := by
        rw [SystemOp.apply, htasks]
        rfl
      rw [hidle]
      exact h
    | zero =>
      rw [SystemOp.apply, htasks]
      cases p with
      | ret a =>
        exact ⟨h.synced, tasksOk_finished ideal hready hkeeps hrun rfl, h.backup⟩
      | fail e =>
        exact ⟨h.synced, tasksOk_finished ideal hready hkeeps hrun rfl, h.backup⟩
      | stmt upd next => exact systemOk_stmt h hready hkeeps hrun hquiet

/-- A backup is given the master key of a ready vault. -/
theorem systemOk_startBackup (ideal : P.Ideal) (h : SystemOk s) (targets : List BackupTarget)
    (hnone : s.tasks = []) : SystemOk ((SystemOp.startBackup targets).apply s) := by
  have hready : VaultReady s.vault := by
    rcases h.tasks with ⟨-, hready⟩ | ⟨p, op', s₀, htasks, -⟩
    · exact hready
    · rw [hnone] at htasks
      cases htasks
  rw [SystemOp.apply]
  cases hinner : s.vault.world.vault.inner with
  | none => exact h
  | some keys =>
    dsimp only
    split
    · rename_i hidle
      obtain ⟨config, v, hrows, hmatches⟩ := matches_of_vaultReady ideal hready hinner
      have hplaintext := noPlaintext_of_isIdle h.backup hidle
      exact ⟨h.synced, Or.inl ⟨hnone, hready⟩, hplaintext, config, v, s.vault.passphrase,
        List.mem_singleton_self _, hmatches, hrows⟩
    · exact h

/-- A statement of a backup leaves the vault alone. -/
theorem systemOk_backupStep {answer : Answer} (h : SystemOk s)
    (hguard : (SystemOp.backupStep answer).Guarded s) :
    SystemOk ((SystemOp.backupStep answer).apply s) := by
  constructor
  · exact (BackupRun.vault_step answer s.backup).trans h.synced
  · rcases h.tasks with hidle | ⟨p, op, s₀, htasks, hready, hkeeps, hrun, hquiet⟩
    · exact Or.inl hidle
    · exact Or.inr ⟨p, op, s₀, htasks, hready, hkeeps, hrun,
        fun hawaits => hquiet (BackupRun.awaitsKdf_of_step hawaits)⟩
  · exact backupOk_step h.backup h.synced hguard

/-- An operation that meets its guard keeps the invariant. -/
theorem systemOk_apply (ideal : P.Ideal) {op : SystemOp} (h : SystemOk s) (hguard : op.Guarded s) :
    SystemOk (op.apply s) := by
  cases op with
  | begin op => exact systemOk_begin h hguard
  | vaultStep i => exact systemOk_vaultStep ideal h i
  | startBackup targets => exact systemOk_startBackup ideal h targets hguard
  | backupStep answer => exact systemOk_backupStep h hguard

theorem systemOk_of_start {passphrase : String} (h : SystemStart passphrase s) : SystemOk s := by
  constructor
  · exact h.synced
  · exact Or.inl ⟨h.tasks, vaultReady_of_firstUnlocked h.unlocked⟩
  · rw [BackupOk, h.point]
    exact h.plaintext

theorem uploadsOpen_of_systemOk (h : SystemOk s) : UploadsOpen s := by
  have hbackup := h.backup
  intro plan object hplan hobject
  obtain ⟨vault, tasks, ⟨w, targets, point⟩, moments⟩ := s
  cases point with
  | uploadSnapshot plan' up target rest attempt =>
    cases hplan
    exact hbackup.2 object hobject
  | uploadLatest plan' up target rest =>
    cases hplan
    exact hbackup.2 object hobject
  | _ => cases hplan

theorem plaintextDeleted_of_systemOk (h : SystemOk s) : PlaintextDeleted s := by
  intro result hresult
  apply noPlaintext_of_isIdle h.backup
  rw [hresult]
  rfl

/-- In every run of operations that meet their guards, what a backup is about to upload opens with
a passphrase that was in force during the backup, and a backup that has returned has left no
plaintext. -/
theorem snapshots_open (ideal : P.Ideal) {passphrase : String} {ops : List SystemOp}
    (hs : SystemStart passphrase s)
    (hguard : GuardedRuns.guarded SystemOp.apply SystemOp.Guarded ops s) :
    ∀ t ∈ GuardedRuns.states SystemOp.apply ops s, UploadsOpen t ∧ PlaintextDeleted t := by
  intro t ht
  have hok : SystemOk t := GuardedRuns.inv_of_guarded SystemOp.apply (fun _ _ => True)
    SystemOp.Guarded SystemOk (fun _ _ h _ hop => systemOk_apply ideal h hop)
    (systemOk_of_start hs) (GuardedRuns.guarded_of_forall _ (fun _ _ => trivial) ops s) hguard t ht
  exact ⟨uploadsOpen_of_systemOk hok, plaintextDeleted_of_systemOk hok⟩

end Operations

/-- A new vault with its owner, and no backup yet. -/
def ownedSystem : BackupSystem symbolicPhrases where
  vault := ownedVault
  backup := { world := { db := { vault := ownedVault.world.vault.db } } }

theorem ownedSystem_start : SystemStart "correct horse" ownedSystem :=
  ⟨ownedVault_firstUnlocked, rfl, rfl, rfl, fun _ => rfl⟩

/-- The start of a backup and some of its statements. -/
def startedBackup (n : ℕ) : List SystemOp :=
  .startBackup [uploaderTarget "backblaze-b2"] :: List.replicate n (.backupStep {})

/-- A backup with a lock before its snapshot, and a rotation behind it. -/
def backupAndLock : List SystemOp :=
  startedBackup 3 ++ .begin .lock :: List.replicate 3 (.vaultStep 0) ++
    List.replicate 16 (.backupStep {}) ++ [.begin (.rotateVaultKey "tr0ub4dor"), .vaultStep 0]

theorem backupAndLock_opens : SystemStart "correct horse" ownedSystem ∧
    ∀ t ∈ GuardedRuns.states SystemOp.apply backupAndLock ownedSystem,
      UploadsOpen t ∧ PlaintextDeleted t := by
  refine ⟨ownedSystem_start, ?_⟩
  apply snapshots_open symbolic_ideal ownedSystem_start
  repeat' apply And.intro
  all_goals first
    | exact trivial
    | rfl
    | exact fun _ => rfl
    | exact fun h => absurd h (by decide)

/-- A rotation between the snapshot of a backup and its reading of the salt. -/
def rotatedBackup : List SystemOp :=
  startedBackup 8 ++ .begin (.rotateVaultKey "tr0ub4dor") :: List.replicate 20 (.vaultStep 0) ++
    List.replicate 5 (.backupStep {})

/-- The object is under the old master key and carries the new salt, and no passphrase opens it. -/
theorem rotated_backup_opens_never :
    ¬ ∀ (passphrase : String) (ops : List SystemOp) (s : BackupSystem symbolicPhrases),
      SystemStart passphrase s → ∀ t ∈ GuardedRuns.states SystemOp.apply ops s,
        UploadsOpen t ∧ PlaintextDeleted t := by
  intro hall
  obtain ⟨hopens, -⟩ := hall "correct horse" rotatedBackup ownedSystem ownedSystem_start _
    (GuardedRuns.mem_states_last _ _ _)
  obtain ⟨passphrase, -, root, hderive, hkey, -⟩ := hopens _ _ rfl rfl
  obtain ⟨master, hmaster, rfl⟩ := deriveRootKeys_eq_some.mp hderive
  cases hmaster
  have hparams := (symbolic_ideal.hkdfExpand_inj hkey).1
  cases hparams

end Backup

end OmniDrive
