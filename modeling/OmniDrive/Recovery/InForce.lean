import OmniDrive.Recovery.Runs

/-!
# The passphrase in force

The passphrase in force is the one that the first unlock, a rotation to a new passphrase or a
restore has set last. It unlocks the vault as long as the KEK in memory is its own when a
revocation rotation wraps under it, a migration is given it, and a restore finds the envelope
key in use.
-/

namespace OmniDrive

open StatementProgram Tables VaultKeyStore

variable {P : Primitives} {M : MnemonicScheme P}

/-- The stored envelope key unwraps under the KEK of the passphrase in force, the DEKs of the
current generation are under it, and an unlock with the passphrase returns. -/
def PassphraseUnlocks (s : RecoveryRun M) : Prop :=
  ∃ root v wrapped e, RootKeysFor s.world.vault.db s.passphrase root ∧
    s.world.vault.db.vaultState = some v ∧ v.encryptedVaultKey = some (.exact wrapped) ∧
    unwrapKey root.kek wrapped = .ok e ∧
    (∀ row ∈ s.world.vault.db.deks, row.vaultKeyGen = generationOf s.world.vault.db →
      ∃ dek, OpensUnder e row dek) ∧
    ∃ result w, (unlock s.passphrase).run s.world.vault = (.ok result, w)

/-- The operation returns, and an unlock is with the passphrase in force. -/
def RecoveryOp.UsesInForce (op : RecoveryOp) (s : RecoveryRun M) : Prop :=
  op.ReturnsOk s ∧ ∀ passphrase, op = .unlock passphrase → passphrase = s.passphrase

/-! ## The conditions on the operations -/

/-- The KEK of the master key in memory is the one of the passphrase and the stored salt. -/
def MemoryInForce (passphrase : String) (w : VaultWorld P) : Prop :=
  ∀ keys root, w.inner = some keys → RootKeysFor w.db passphrase root →
    deriveKek keys.masterKey = root.kek

/-- A migration has something to do. -/
def MigrationDue (db : VaultDb P) : Prop :=
  (∃ cfg, db.vaultConfig = some cfg ∧ needsKdfMigration cfg.parameterSetVersion = true) ∧
    (db.devices.filter (·.revokedAt.isNone)).length ≤ 1

/-- The row that a restore finds holds the envelope key that the vault row wraps. -/
def RestoresCurrent (M : MnemonicScheme P) (req : Recovery.RestoreRequest)
    (w : RecoveryWorld P) : Prop :=
  ∀ v mnemonic envelopeKey, w.vault.db.vaultState = some v →
    M.parse req.mnemonic = some mnemonic →
    Recovery.findEnvelopeKey (M.recoveryKey mnemonic) (Recovery.activeKeys v.vaultId w) =
      some envelopeKey →
    ∃ kek, v.encryptedVaultKey = some (.exact (wrapKey kek envelopeKey))

/-- The operation keeps the passphrase in force: a revocation rotation comes when memory holds its
KEK, a due migration is given it, and a restore finds the envelope key in use. -/
def RecoveryOp.KeepsInForce (op : RecoveryOp) (s : RecoveryRun M) : Prop :=
  match op with
  | .rotateForRevocation => MemoryInForce s.passphrase s.world.vault
  | .migrateKdfParamsIfNeeded => MigrationDue s.world.vault.db → s.session = s.passphrase
  | .restoreFromRecoveryKey req => RestoresCurrent M req s.world
  | _ => True

/-! ## The invariant -/

/-- The vault row wraps its envelope key under the KEK of the passphrase in force. -/
def InForce (s : RecoveryRun M) : Prop :=
  s.passphrase ≠ "" ∧ ∃ root e, RootKeysFor s.world.vault.db s.passphrase root ∧
    EnvelopeVault False s.minted root.kek e s.world.vault

section Invariant

variable {s t : RecoveryRun M} {db db' : VaultDb P} {passphrase : String} {root root' : RootKeys P}

/-- The root keys depend on the KDF row only. -/
theorem rootKeysFor_congr (h : RootKeysFor db passphrase root)
    (hconfig : db'.vaultConfig = db.vaultConfig) : RootKeysFor db' passphrase root := by
  obtain ⟨config, params, hrow, hrest⟩ := h
  exact ⟨config, params, hconfig.trans hrow, hrest⟩

/-- A passphrase has one set of root keys. -/
theorem rootKeysFor_unique (h : RootKeysFor db passphrase root)
    (h' : RootKeysFor db passphrase root') : root = root' := by
  obtain ⟨config, params, hconfig, hparams, hderive⟩ := h
  obtain ⟨config', params', hconfig', hparams', hderive'⟩ := h'
  rw [hconfig] at hconfig'
  cases hconfig'
  rw [hparams] at hparams'
  cases hparams'
  rw [hderive] at hderive'
  exact Option.some.inj hderive'

/-- Under the invariant, the passphrase in force unlocks the vault. -/
theorem passphraseUnlocks_of_inForce (ideal : P.Ideal) (h : InForce s) : PassphraseUnlocks s := by
  obtain ⟨hpass, root, e, hroot, hvault⟩ := h
  obtain ⟨v, hv, hkey⟩ := hvault.stored
  obtain ⟨w, hrun, -⟩ := hvault.unlocks ideal hpass hroot
  refine ⟨root, v, _, e, hroot, hv, hkey, ideal.unwrapKey_wrapKey _ _, ?_, _, w, hrun⟩
  intro row hrow hgeneration
  obtain ⟨dek, hwrapped⟩ := hvault.table.current row hrow (Or.inl hgeneration)
  exact ⟨dek, (hwrapped.opensUnder_iff ideal).mpr ⟨rfl, rfl⟩⟩

theorem inForce_of_firstUnlocked (h : FirstUnlocked passphrase s) : InForce s := by
  obtain ⟨hpass, root, e, hroot, hvault⟩ := h.envelopeVault False
  exact ⟨hpass, root, e, hroot, hvault⟩

/-- An operation on the vault that keeps its KDF row and its KEK keeps the invariant. -/
theorem inForce_withVault (hpass : s.passphrase ≠ "") {e : P.Key} {w : VaultWorld P}
    (hroot : RootKeysFor s.world.vault.db s.passphrase root)
    (hconfig : w.db.vaultConfig = s.world.vault.db.vaultConfig)
    (hvault : EnvelopeVault False s.minted root.kek e w) : InForce (s.withVault w) :=
  ⟨hpass, root, e, rootKeysFor_congr hroot hconfig, hvault⟩

/-! ## Each operation -/

/-- An operation that returns and meets its condition keeps the invariant. -/
theorem inForce_step (ideal : P.Ideal) {op : RecoveryOp} (h : InForce s)
    (hlegal : op.UsesInForce s) (hguard : op.KeepsInForce s) : InForce (op.step s) := by
  obtain ⟨hpass, root, e, hroot, hvault⟩ := h
  have hexec := RecoveryOp.exec_eq_step hlegal.1
  generalize op.step s = t at hexec
  cases op with
  | unlock passphrase =>
    obtain rfl : passphrase = s.passphrase := hlegal.2 passphrase rfl
    obtain ⟨⟨result, w⟩, hret, rfl⟩ := Option.map_eq_some_iff.mp hexec
    obtain ⟨-, root', hroot', hkek, hsame⟩ :=
      outcome_of_unlock_ok ideal hvault (returned_eq_some.mp hret)
    obtain ⟨-, -, users, hdb⟩ := id hsame
    exact inForce_withVault hpass hroot (by rw [hdb]) (hvault.unlocked hsame)
  | lock =>
    rw [RecoveryOp.exec] at hexec
    obtain ⟨⟨result, w⟩, hret, rfl⟩ := Option.map_eq_some_iff.mp hexec
    cases hret
    exact inForce_withVault hpass hroot rfl hvault.lock
  | migrateKdfParamsIfNeeded =>
    obtain ⟨⟨result, w⟩, hret, rfl⟩ := Option.map_eq_some_iff.mp hexec
    have hrun := returned_eq_some.mp hret
    by_cases hdue : MigrationDue s.world.vault.db
    · rw [hguard hdue] at hrun
      obtain hsame | ⟨root', hroot', hvault', -⟩ := outcome_of_migrate_ok hvault hrun
      · rw [hsame]
        exact inForce_withVault hpass hroot rfl hvault
      · exact ⟨hpass, root', e, hroot', hvault'⟩
    · have hidle : w = s.world.vault := by
        obtain hsame | ⟨cfg, _, _, hcfg, hneeds, hdevices, -⟩ := migrate_ok_cases hrun
        · exact hsame
        · exact absurd ⟨⟨cfg, hcfg, hneeds⟩, hdevices⟩ hdue
      rw [hidle]
      exact inForce_withVault hpass hroot rfl hvault
  | createPackDek inodeId =>
    obtain ⟨⟨⟨dekId, dek⟩, w⟩, hret, rfl⟩ := Option.map_eq_some_iff.mp hexec
    obtain ⟨hvault', hconfig, -⟩ := outcome_of_createPackDek_ok hvault (returned_eq_some.mp hret)
    exact ⟨hpass, root, e, rootKeysFor_congr hroot hconfig, hvault'⟩
  | rotateForRevocation =>
    obtain ⟨⟨result, w⟩, hret, rfl⟩ := Option.map_eq_some_iff.mp hexec
    obtain ⟨keys, e', hinner, hconfig, hvault', -⟩ :=
      outcome_of_rotateForRevocation_ok hvault (returned_eq_some.mp hret)
    rw [hguard keys root hinner hroot] at hvault'
    exact inForce_withVault hpass hroot hconfig hvault'
  | processRewrapBatch batchSize =>
    obtain ⟨⟨result, w⟩, hret, rfl⟩ := Option.map_eq_some_iff.mp hexec
    have hbatch := outcome_of_processRewrapBatch ideal hvault batchSize
    rw [returned_eq_some.mp hret] at hbatch
    exact inForce_withVault hpass hroot hbatch.2.1 hbatch.1
  | rotateVaultKey newPassphrase =>
    obtain ⟨⟨result, w⟩, hret, rfl⟩ := Option.map_eq_some_iff.mp hexec
    obtain ⟨hpass', root', e', hroot', hvault', -⟩ :=
      outcome_of_rotateVaultKey_ok ideal hvault (returned_eq_some.mp hret)
    exact ⟨hpass', root', e', hroot', hvault'.mono False.elim⟩
  | generateRecoveryKey headers =>
    obtain ⟨⟨response, world⟩, hret, rfl⟩ := Option.map_eq_some_iff.mp hexec
    obtain ⟨_, _, _, -, -, rfl⟩ := Recovery.outcome_of_generate_ok (returned_eq_some.mp hret)
    exact ⟨hpass, root, e, hroot, hvault.congr rfl rfl rfl rfl hvault.slot⟩
  | revokeRecoveryKeys headers =>
    obtain ⟨⟨n, world⟩, hret, rfl⟩ := Option.map_eq_some_iff.mp hexec
    obtain ⟨haccess, -, -⟩ := Recovery.outcome_of_revoke_ok (returned_eq_some.mp hret)
    have hworld : world.vault = s.world.vault := by rw [RecoveryWorld.vault, haccess]; rfl
    refine ⟨hpass, root, e, ?_, ?_⟩
    · show RootKeysFor world.vault.db _ _
      rw [hworld]
      exact hroot
    · show EnvelopeVault _ _ _ _ world.vault
      rw [hworld]
      exact hvault
  | restoreFromRecoveryKey req =>
    obtain ⟨⟨response, world⟩, hret, rfl⟩ := Option.map_eq_some_iff.mp hexec
    obtain ⟨hpass', v, mnemonic, envelopeKey, root', hv, hparse, hfind, hrestored, -⟩ :=
      Recovery.outcome_of_restore_ok (returned_eq_some.mp hret)
    obtain ⟨kek, hwrapped⟩ := hguard v mnemonic envelopeKey hv hparse hfind
    have hkey : envelopeKey = e := by
      obtain ⟨v', hv', hstored⟩ := hvault.stored
      rw [hv] at hv'
      cases hv'
      rw [hwrapped] at hstored
      have heq : wrapKey kek envelopeKey = wrapKey root.kek e :=
        Sized.exact.inj (Option.some.inj hstored)
      have hopen := ideal.unwrapKey_wrapKey kek envelopeKey
      rw [heq] at hopen
      exact (ideal.unwrapKey_wrapKey_eq_ok.mp hopen).2.symm
    rw [hkey] at hrestored
    exact ⟨hpass', root', e, hrestored.rootKeys,
      Recovery.envelopeVault_of_restored hvault hv hrestored⟩

end Invariant

/-! ## Runs from the first unlock -/

/-- In every run in which no revocation rotation meets a stale master key in memory, no due
migration a stale passphrase and no restore a stale row, the passphrase in force unlocks. -/
theorem passphrase_in_force_unlocks (ideal : P.Ideal) {passphrase : String}
    {ops : List RecoveryOp} {s : RecoveryRun M} (hs : FirstUnlocked passphrase s)
    (hlegal : GuardedRuns.guarded RecoveryOp.step RecoveryOp.UsesInForce ops s)
    (hguard : GuardedRuns.guarded RecoveryOp.step RecoveryOp.KeepsInForce ops s) :
    ∀ t ∈ GuardedRuns.states RecoveryOp.step ops s, PassphraseUnlocks t := by
  intro t ht
  apply passphraseUnlocks_of_inForce ideal
  apply GuardedRuns.inv_of_guarded RecoveryOp.step RecoveryOp.UsesInForce
    RecoveryOp.KeepsInForce InForce _ (inForce_of_firstUnlocked hs) hlegal hguard t ht
  intro op u hu hl hg
  exact inForce_step ideal hu hl hg

/-- The root keys of the passphrase in force determine the KEK that memory has to hold. -/
theorem memoryInForce_of_rootKeysFor {passphrase : String} {w : VaultWorld P} (root : RootKeys P)
    {keys : UnlockedVaultKeys P} (hroot : RootKeysFor w.db passphrase root)
    (hinner : w.inner = some keys) (hkek : deriveKek keys.masterKey = root.kek) :
    MemoryInForce passphrase w := by
  intro keys' root' hkeys' hroot'
  rw [hinner] at hkeys'
  cases hkeys'
  rw [hkek, rootKeysFor_unique hroot hroot']

/-- A run with a rotation after a revocation, its batches, a phrase generated after them, a
restore and a new session. -/
def restoredRun : List RecoveryOp :=
  [.createPackDek 1, .rotateForRevocation, .processRewrapBatch 10, .generateRecoveryKey owner,
    .restoreFromRecoveryKey ⟨none, symbolicPhrases.text (7 : ℕ), "battery staple"⟩, .lock,
    .unlock "battery staple", .migrateKdfParamsIfNeeded, .rotateVaultKey "tr0ub4dor"]

theorem restoredRun_unlocks : FirstUnlocked "correct horse" ownedVault ∧
    ∀ t ∈ GuardedRuns.states RecoveryOp.step restoredRun ownedVault, PassphraseUnlocks t := by
  refine ⟨ownedVault_firstUnlocked, ?_⟩
  apply passphrase_in_force_unlocks symbolic_ideal ownedVault_firstUnlocked
  · refine ⟨⟨rfl, ?_⟩, ⟨rfl, ?_⟩, ⟨rfl, ?_⟩, ⟨rfl, ?_⟩, ⟨rfl, ?_⟩, ⟨rfl, ?_⟩, ⟨rfl, ?_⟩, ⟨rfl, ?_⟩,
      ⟨rfl, ?_⟩, trivial⟩
    all_goals intro passphrase h; cases h
    rfl
  · refine ⟨trivial, ?_, trivial, trivial, ?_, trivial, trivial, fun _ => rfl, trivial, trivial⟩
    · exact memoryInForce_of_rootKeysFor newRoot ⟨_, _, rfl, rfl, rfl⟩ rfl rfl
    · intro v mnemonic envelopeKey hv hparse hfind
      cases hv
      cases hparse
      cases hfind
      exact ⟨newRoot.kek, rfl⟩

/-- A restore in an unlocked session, and then a revocation rotation. -/
def lockedOutRun : List RecoveryOp :=
  [.generateRecoveryKey owner,
    .restoreFromRecoveryKey ⟨none, symbolicPhrases.text (5 : ℕ), "battery staple"⟩,
    .rotateForRevocation]

/-- The rotation wraps the new key under the master key from before the restore, and no
passphrase yields its KEK with the salt that the restore has stored. -/
theorem locked_out_after_restore :
    ¬ ∀ (passphrase : String) (ops : List RecoveryOp) (s : RecoveryRun symbolicPhrases),
      FirstUnlocked passphrase s →
      GuardedRuns.guarded RecoveryOp.step RecoveryOp.UsesInForce ops s →
      ∀ t ∈ GuardedRuns.states RecoveryOp.step ops s, PassphraseUnlocks t := by
  intro hall
  have hlegal : GuardedRuns.guarded RecoveryOp.step RecoveryOp.UsesInForce lockedOutRun
      ownedVault := by
    refine ⟨⟨rfl, ?_⟩, ⟨rfl, ?_⟩, ⟨rfl, ?_⟩, trivial⟩
    all_goals intro passphrase h; cases h
  obtain ⟨root, v, wrapped, e, -, -, -, -, -, result, w, hrun⟩ :=
    hall "correct horse" lockedOutRun ownedVault ownedVault_firstUnlocked hlegal _
      (GuardedRuns.mem_states_last _ _ _)
  have hrefused : ((unlock "battery staple").run
      (lockedOutRun.foldl (fun t o => RecoveryOp.step o t) ownedVault).world.vault).1 =
      .error (.crypto .keyWrap) := rfl
  cases hrefused.symm.trans (congrArg Prod.fst hrun)

end OmniDrive
