import OmniDrive.Vault.LazyRewrap

/-!
# Vaults with an envelope key

The envelope key of a vault is the key that its row wraps. The invariant of this file says under
which KEK it is wrapped, that the key slot holds it, and which DEK rows are under it. Each
operation that returns keeps the invariant, with a new KEK or a new envelope key where the
operation says so.
-/

namespace OmniDrive

open StatementProgram Tables

variable {P : Primitives}

namespace VaultKeyStore

/-! ## The invariant -/

/-- The DEK rows against an envelope key: every row holds the DEK it was minted with, a row of
the current generation is under the envelope key, and in a settled table every row is. -/
structure EnvelopeTable (settled : Prop) (minted : ℤ → Option P.Key) (e : P.Key)
    (db : VaultDb P) : Prop where
  wrapped : ∀ row ∈ db.deks, ∃ key dek, minted row.dekId = some dek ∧ WrappedUnder key row dek
  current : ∀ row ∈ db.deks, row.vaultKeyGen = generationOf db ∨ settled →
    ∃ dek, WrappedUnder e row dek
  sequence : ∀ row ∈ db.deks, row.dekId ≤ db.dekSequence
  ghost : ∀ i, minted i ≠ none → i ≤ db.dekSequence
  generation : ∀ row ∈ db.deks, row.vaultKeyGen ≤ generationOf db

/-- The vault row wraps the envelope key `e` under `kek`, and memory and DEK rows agree. -/
structure EnvelopeVault (settled : Prop) (minted : ℤ → Option P.Key) (kek e : P.Key)
    (w : VaultWorld P) : Prop where
  config : ∃ config, w.db.vaultConfig = some config
  stored : ∃ v, w.db.vaultState = some v ∧ v.encryptedVaultKey = some (.exact (wrapKey kek e))
  slot : ∀ keys, w.inner = some keys → keys.envelopeVaultKey = some e
  table : EnvelopeTable settled minted e w.db

section Invariant

variable {settled settled' : Prop} {minted : ℤ → Option P.Key} {kek e : P.Key}
variable {db db' : VaultDb P} {w w' : VaultWorld P} {passphrase : String}

/-- The table depends on the DEK rows and on the current generation only. -/
theorem EnvelopeTable.congr (h : EnvelopeTable settled minted e db) (hdeks : db'.deks = db.deks)
    (hsequence : db'.dekSequence = db.dekSequence)
    (hgeneration : generationOf db' = generationOf db) :
    EnvelopeTable settled minted e db' := by
  constructor
  · rw [hdeks]
    exact h.wrapped
  · rw [hdeks, hgeneration]
    exact h.current
  · rw [hdeks, hsequence]
    exact h.sequence
  · rw [hsequence]
    exact h.ghost
  · rw [hdeks, hgeneration]
    exact h.generation

/-- A settled table is a table. -/
theorem EnvelopeTable.mono (h : EnvelopeTable settled minted e db) (hmono : settled' → settled) :
    EnvelopeTable settled' minted e db :=
  ⟨h.wrapped, fun row hrow hcase => h.current row hrow (hcase.imp_right hmono), h.sequence,
    h.ghost, h.generation⟩

theorem EnvelopeVault.mono (h : EnvelopeVault settled minted kek e w)
    (hmono : settled' → settled) : EnvelopeVault settled' minted kek e w :=
  ⟨h.config, h.stored, h.slot, h.table.mono hmono⟩

/-- A table whose rows are all under the envelope key is settled. -/
theorem EnvelopeVault.settle (h : EnvelopeVault settled minted kek e w)
    (hall : ∀ row ∈ w.db.deks, ∃ dek, WrappedUnder e row dek) :
    EnvelopeVault settled' minted kek e w :=
  ⟨h.config, h.stored, h.slot, h.table.wrapped, fun row hrow _ => hall row hrow,
    h.table.sequence, h.table.ghost, h.table.generation⟩

/-- The invariant depends on two rows, the DEK rows and the key slot only. -/
theorem EnvelopeVault.congr (h : EnvelopeVault settled minted kek e w)
    (hconfig : w'.db.vaultConfig = w.db.vaultConfig)
    (hstate : w'.db.vaultState = w.db.vaultState) (hdeks : w'.db.deks = w.db.deks)
    (hsequence : w'.db.dekSequence = w.db.dekSequence)
    (hslot : ∀ keys, w'.inner = some keys → keys.envelopeVaultKey = some e) :
    EnvelopeVault settled minted kek e w' := by
  constructor
  · rw [hconfig]
    exact h.config
  · rw [hstate]
    exact h.stored
  · exact hslot
  · apply h.table.congr hdeks hsequence
    rw [generationOf, hstate, generationOf]

/-- A row under the envelope key holds the DEK it was minted with. -/
theorem EnvelopeTable.opens (ideal : P.Ideal) (h : EnvelopeTable settled minted e db)
    {row : WrappedDekRecord P} (hrow : row ∈ db.deks) {key dek : P.Key}
    (hopen : OpensUnder key row dek) : minted row.dekId = some dek := by
  obtain ⟨key', dek', hminted, hwrapped⟩ := h.wrapped row hrow
  obtain ⟨-, heq⟩ := (hwrapped.opensUnder_iff ideal).mp hopen
  rw [hminted, heq]

/-! ## Lock and unlock -/

theorem EnvelopeVault.lock (h : EnvelopeVault settled minted kek e w) :
    EnvelopeVault settled minted kek e { w with inner := none } :=
  h.congr rfl rfl rfl rfl fun keys hkeys => by cases hkeys

/-- An unlock that returns had a passphrase whose KEK wraps the envelope key, and puts that key
into the slot. -/
theorem outcome_of_unlock_ok (ideal : P.Ideal) (h : EnvelopeVault settled minted kek e w)
    {result : UnlockResult} (hrun : (unlock passphrase).run w = (.ok result, w')) :
    passphrase ≠ "" ∧ ∃ root, RootKeysFor w.db passphrase root ∧ root.kek = kek ∧
      SameVault { w with inner := some (.withEnvelopeKey root.masterKey root.vaultKey e) } w' := by
  obtain ⟨config, hconfig⟩ := h.config
  obtain ⟨v, hv, hkey⟩ := h.stored
  have hpass : passphrase ≠ "" := by
    intro hempty
    rw [unlock, if_pos hempty] at hrun
    cases hrun
  rcases hparams : toRootKdfParams config with err | params
  · simp [unlock, hpass, ensureVaultConfig, Db.getVaultConfig, hconfig, hparams] at hrun
  rcases hderive : deriveRootKeys P passphrase params with _ | root
  · simp [unlock, hpass, ensureVaultConfig, Db.getVaultConfig, hconfig, hparams,
      ensureLocalVaultParams, Db.getVaultParams, hv, hderive] at hrun
  have hroot : RootKeysFor w.db passphrase root := ⟨config, params, hconfig, hparams, hderive⟩
  refine ⟨hpass, root, hroot, ?_⟩
  by_cases hkek : kek = root.kek
  · rw [hkek] at hkey
    obtain ⟨t, ht, hsame⟩ := run_unlock_stored hpass hroot hv hkey
      (ideal.unwrapKey_wrapKey root.kek e)
    rw [ht] at hrun
    cases hrun
    exact ⟨hkek.symm, hsame⟩
  · rw [run_unlock_refused hpass hroot hv hkey (ideal.unwrapKey_other e hkek)] at hrun
    cases hrun

/-- The vault after an unlock that found its envelope key. -/
theorem EnvelopeVault.unlocked (h : EnvelopeVault settled minted kek e w) {master key : P.Key}
    (hsame : SameVault { w with inner := some (.withEnvelopeKey master key e) } w') :
    EnvelopeVault settled minted kek e w' := by
  obtain ⟨hinner, -, users, hdb⟩ := hsame
  apply h.congr
  · rw [hdb]
  · rw [hdb]
  · rw [hdb]
  · rw [hdb]
  · intro keys hkeys
    rw [hinner] at hkeys
    cases hkeys
    rfl

/-- With a passphrase whose KEK wraps the envelope key, an unlock returns. -/
theorem EnvelopeVault.unlocks (ideal : P.Ideal) {root : RootKeys P}
    (h : EnvelopeVault settled minted root.kek e w) (hpass : passphrase ≠ "")
    (hroot : RootKeysFor w.db passphrase root) :
    ∃ t, (unlock passphrase).run w = (.ok { initialized := false, unlocked := true }, t) ∧
      SameVault { w with inner := some (.withEnvelopeKey root.masterKey root.vaultKey e) } t := by
  obtain ⟨v, hv, hkey⟩ := h.stored
  exact run_unlock_stored hpass hroot hv hkey (ideal.unwrapKey_wrapKey root.kek e)

/-! ## The first unlock -/

/-- The KDF row of an unlock is the stored one or a new one. -/
theorem outcome_of_ensureVaultConfig {params : RootKdfParams} {initialized : Bool}
    (h : ensureVaultConfig.run w = (.ok (params, initialized), w')) :
    ∃ config, w'.db = { w.db with vaultConfig := some config } ∧
      toRootKdfParams config = .ok params := by
  rcases hconfig : w.db.vaultConfig with _ | config
  · simp [ensureVaultConfig, Db.getVaultConfig, hconfig, randomSalt, Db.setVaultConfig] at h
    obtain ⟨⟨rfl, -⟩, rfl⟩ := h
    exact ⟨_, rfl, toRootKdfParams_eq_ok.mpr ⟨rfl, targetKdfParams_fits _⟩⟩
  · rcases hparams : toRootKdfParams config with err | params'
    · simp [ensureVaultConfig, Db.getVaultConfig, hconfig, hparams] at h
    · simp [ensureVaultConfig, Db.getVaultConfig, hconfig, hparams] at h
      obtain ⟨⟨rfl, -⟩, rfl⟩ := h
      exact ⟨config, by rw [← hconfig], hparams⟩

/-- The vault row of an unlock is the stored one or a new one without an envelope key. -/
theorem outcome_of_ensureLocalVaultParams {params : RootKdfParams} {initialized : Bool}
    (h : (ensureLocalVaultParams params).run w = (.ok initialized, w')) :
    ∃ v, w'.db = { w.db with vaultState := some v } ∧
      (w.db.vaultState = some v ∨ v.encryptedVaultKey = none) := by
  rcases hv : w.db.vaultState with _ | v
  · simp [ensureLocalVaultParams, Db.getVaultParams, hv, randomSalt, Db.setVaultParams] at h
    obtain ⟨-, rfl⟩ := h
    exact ⟨_, rfl, Or.inr rfl⟩
  · simp [ensureLocalVaultParams, Db.getVaultParams, hv] at h
    obtain ⟨-, rfl⟩ := h
    exact ⟨v, by rw [← hv], Or.inl rfl⟩

/-- The database holds no envelope key yet: a new one, or one of a vault of the first format. -/
def NoEnvelope (db : VaultDb P) : Prop :=
  ∀ v wrapped, db.vaultState = some v → v.encryptedVaultKey ≠ some (.exact wrapped)

/-- The first unlock stores a fresh envelope key under the KEK of its passphrase. -/
theorem outcome_of_first_unlock (hnone : NoEnvelope w.db) {result : UnlockResult}
    (hrun : (unlock passphrase).run w = (.ok result, w')) :
    passphrase ≠ "" ∧ ∃ root v, RootKeysFor w'.db passphrase root ∧
      ∃ e, v.encryptedVaultKey = some (.exact (wrapKey root.kek e)) ∧
        w'.db.vaultState = some v ∧
        w'.inner = some (.withEnvelopeKey root.masterKey root.vaultKey e) ∧
        w'.db.deks = w.db.deks ∧ w'.db.dekSequence = w.db.dekSequence := by
  have hpass : passphrase ≠ "" := by
    intro hempty
    rw [unlock, if_pos hempty] at hrun
    cases hrun
  refine ⟨hpass, ?_⟩
  rw [unlock, if_neg hpass] at hrun
  obtain ⟨⟨params, initialized⟩, t₁, hfirst, hrun⟩ := Prog.run_bind_ok hrun
  obtain ⟨created, t₂, hsecond, hrun⟩ := Prog.run_bind_ok hrun
  obtain ⟨config, hdb₁, hparams⟩ := outcome_of_ensureVaultConfig hfirst
  obtain ⟨v, hdb₂, hv⟩ := outcome_of_ensureLocalVaultParams hsecond
  rcases hderive : deriveRootKeys P passphrase params with _ | root
  · simp [hderive] at hrun
  have hstate : t₂.db.vaultState = some v := by rw [hdb₂]
  have hkey : ∀ wrapped, v.encryptedVaultKey ≠ some (.exact wrapped) := by
    intro wrapped
    obtain hold | hnew := hv
    · rw [hdb₁] at hold
      exact hnone v wrapped hold
    · rw [hnew]
      simp
  simp only [hderive, Prog.ofOption_some, Prog.ret_bind, Db.getVaultParams, run_selectDb_bind,
    hstate] at hrun
  rw [Prog.run_bind_of_ok (run_unlockKeys_fresh root hstate hkey)] at hrun
  obtain ⟨t, hfinish, hinner, -, users, hdb⟩ := run_unlock_finish
    (.withEnvelopeKey root.masterKey root.vaultKey (P.randomKey t₂.draws)) initialized
    { db := { t₂.db with vaultState := some (firstEnvelope root (P.randomKey t₂.draws) v) }
      inner := t₂.inner
      draws := t₂.draws + 1
      now := t₂.now }
  obtain rfl : t = w' := (Prod.mk.inj (hfinish.symm.trans hrun)).2
  refine ⟨root, firstEnvelope root (P.randomKey t₂.draws) v, ⟨config, params, ?_, hparams, hderive⟩,
    P.randomKey t₂.draws, rfl, ?_, hinner, ?_, ?_⟩
  · rw [hdb, hdb₂, hdb₁]
  · rw [hdb]
  · rw [hdb, hdb₂, hdb₁]
  · rw [hdb, hdb₂, hdb₁]

/-- A vault after its first unlock, before its first DEK. -/
theorem envelopeVault_of_first_unlock (settled : Prop) (hnone : NoEnvelope w.db)
    (hdeks : w.db.deks = []) {result : UnlockResult} (hrun : (unlock passphrase).run w = (.ok result, w')) :
    passphrase ≠ "" ∧ ∃ root e, RootKeysFor w'.db passphrase root ∧
      w'.inner = some (.withEnvelopeKey root.masterKey root.vaultKey e) ∧
      EnvelopeVault settled (fun _ => none) root.kek e w' := by
  obtain ⟨hpass, root, v, hroot, e, hkey, hstate, hinner, hdeks', -⟩ :=
    outcome_of_first_unlock hnone hrun
  have hempty : w'.db.deks = [] := hdeks'.trans hdeks
  refine ⟨hpass, root, e, hroot, hinner, ?_, ⟨v, hstate, hkey⟩, ?_, ?_⟩
  · obtain ⟨config, params, hconfig, -⟩ := hroot
    exact ⟨config, hconfig⟩
  · intro keys hkeys
    rw [hinner] at hkeys
    cases hkeys
    rfl
  · constructor <;> simp [hempty]

/-! ## Migration and new DEKs -/

/-- A migration that returns has left the vault alone, or has wrapped the envelope key under the
KEK of its passphrase and new parameters. -/
theorem outcome_of_migrate_ok (h : EnvelopeVault settled minted kek e w)
    {outcome : MigrationOutcome}
    (hrun : (migrateKdfParamsIfNeeded passphrase).run w = (.ok outcome, w')) :
    w' = w ∨ ∃ root, RootKeysFor w'.db passphrase root ∧
      EnvelopeVault settled minted root.kek e w' ∧
      w'.inner = some (.withEnvelopeKey root.masterKey root.vaultKey e) := by
  obtain hsame | ⟨cfg, keys, evk, hcfg, hneeds, hdevices, hinner, henv, ready⟩ :=
    migrate_ok_cases hrun
  · exact Or.inl hsame
  apply Or.inr
  have hslot := h.slot keys hinner
  rw [henv] at hslot
  obtain rfl : evk = e := Option.some.inj hslot
  obtain ⟨outcome', r, d, hr, -, hok⟩ :=
    run_migrate hcfg hneeds (not_lt.mpr hdevices) hinner henv ready
  rw [hok] at hrun
  obtain rfl := (Prod.mk.inj hrun).2
  obtain ⟨v, hv, hkey⟩ := h.stored
  have hroot : RootKeysFor (Db.applyKdfMigration r.writes w.db) passphrase r.newRoot := by
    refine ⟨(targetKdfParams r.writes.newSalt).toRecord, _, ?_,
      toRootKdfParams_eq_ok.mpr ⟨rfl, targetKdfParams_fits _⟩, hr.rootKeys⟩
    rw [Db.applyKdfMigration, hcfg, hr.params]
    rfl
  refine ⟨r.newRoot, hroot, ⟨?_, ?_, ?_, ?_⟩, rfl⟩
  · obtain ⟨config, params, hconfig, -⟩ := hroot
    exact ⟨config, hconfig⟩
  · simp only [Db.applyKdfMigration, hv, Option.map_some]
    exact ⟨_, rfl, by rw [hr.vaultKey]⟩
  · intro keys' hkeys'
    cases hkeys'
    rfl
  · have hgeneration : generationOf (Db.applyKdfMigration r.writes w.db) = generationOf w.db := by
      simp [generationOf, Db.applyKdfMigration, hv]
    exact EnvelopeTable.congr h.table rfl rfl hgeneration

/-- A new DEK that was returned is under the envelope key and recorded. -/
theorem outcome_of_createPackDek_ok (h : EnvelopeVault settled minted kek e w) {inodeId : ℤ}
    {dekId : ℤ} {dek : P.Key} (hrun : (createPackDek inodeId).run w = (.ok (dekId, dek), w')) :
    EnvelopeVault settled (DekRun.record minted dekId dek) kek e w' ∧
      w'.db.vaultConfig = w.db.vaultConfig ∧ w'.inner = w.inner := by
  rcases hinner : w.inner with _ | keys
  · rw [run_createPackDek_locked inodeId (by rw [hinner]; rfl)] at hrun
    cases hrun
  rw [run_createPackDek inodeId hinner (h.slot keys hinner)] at hrun
  cases hrun
  have hunused : minted (w.db.dekSequence + 1) = none := by
    by_contra hsome
    have hle := h.table.ghost _ hsome
    omega
  rw [record_eq hunused]
  refine ⟨⟨h.config, h.stored, h.slot, ?_⟩, rfl, hinner⟩
  constructor
  · intro row hrow
    rcases List.mem_append.mp hrow with hold | hnew
    · have hle := h.table.sequence row hold
      rw [Function.update_of_ne (by omega)]
      exact h.table.wrapped row hold
    · rw [List.mem_singleton.mp hnew]
      exact ⟨e, P.randomKey w.draws, Function.update_self _ _ _, rfl⟩
  · intro row hrow hcase
    rcases List.mem_append.mp hrow with hold | hnew
    · exact h.table.current row hold hcase
    · rw [List.mem_singleton.mp hnew]
      exact ⟨P.randomKey w.draws, rfl⟩
  · intro row hrow
    simp only [dekInserted, Db.appendDek]
    rcases List.mem_append.mp hrow with hold | hnew
    · have hle := h.table.sequence row hold
      omega
    · rw [List.mem_singleton.mp hnew]
  · intro i hi
    simp only [dekInserted, Db.appendDek]
    by_cases hnext : i = w.db.dekSequence + 1
    · omega
    · rw [Function.update_of_ne hnext] at hi
      have hle := h.table.ghost i hi
      omega
  · intro row hrow
    rcases List.mem_append.mp hrow with hold | hnew
    · exact h.table.generation row hold
    · rw [List.mem_singleton.mp hnew]
      exact le_rfl

/-! ## Rotations -/

/-- A revocation rotation that returns has wrapped a new envelope key under the KEK of the
master key in memory. -/
theorem outcome_of_rotateForRevocation_ok (h : EnvelopeVault settled minted kek e w)
    {result : RevocationRotationResult}
    (hrun : rotateForRevocation.run w = (.ok result, w')) :
    ∃ keys e', w.inner = some keys ∧ w'.db.vaultConfig = w.db.vaultConfig ∧
      EnvelopeVault False minted (deriveKek keys.masterKey) e' w' ∧
      ∃ vaultKey previous, w'.inner =
        some (.withPreviousKey keys.masterKey vaultKey e' previous) := by
  obtain ⟨keys, evk, hinner, henv, ready⟩ := ready_of_rotateForRevocation_ok hrun
  obtain ⟨result', devices, hok⟩ := run_rotateForRevocation hinner henv ready
  rw [hok] at hrun
  obtain rfl := (Prod.mk.inj hrun).2
  obtain ⟨v, hv, -⟩ := h.stored
  have hgeneration : generationOf ({ Db.enqueueOlder (generationOf w.db + 1)
      (replaceStoredKey keys.masterKey (P.randomKey w.draws) w.db) with devices } : VaultDb P) =
      generationOf w.db + 1 := generationOf_replaceStoredKey hv keys.masterKey _
  refine ⟨keys, P.randomKey w.draws, hinner, rfl, ⟨h.config, ?_, ?_, ?_⟩, keys.vaultKey, evk, rfl⟩
  · simp only [Db.enqueueOlder, replaceStoredKey, hv, Option.map_some]
    exact ⟨_, rfl, rfl⟩
  · intro keys' hkeys'
    cases hkeys'
    rfl
  · constructor
    · exact h.table.wrapped
    · intro row hrow hcase
      have hle := h.table.generation row hrow
      obtain hsame | hfalse := hcase
      · rw [hgeneration] at hsame
        omega
      · exact hfalse.elim
    · exact h.table.sequence
    · exact h.table.ghost
    · intro row hrow
      have hle := h.table.generation row hrow
      rw [hgeneration]
      omega

/-- A rotation that returns has wrapped a new envelope key under the KEK of its passphrase, with
every DEK under the new key. -/
theorem outcome_of_rotateVaultKey_ok (ideal : P.Ideal) (h : EnvelopeVault settled minted kek e w)
    {result : RotationResult} (hrun : (rotateVaultKey passphrase).run w = (.ok result, w')) :
    passphrase ≠ "" ∧ ∃ root e', RootKeysFor w'.db passphrase root ∧
      EnvelopeVault True minted root.kek e' w' ∧
      w'.inner = some (.withEnvelopeKey root.masterKey root.vaultKey e') := by
  obtain ⟨evk, henv, ready⟩ := ready_of_rotateVaultKey_ok hrun
  refine ⟨ready.nonempty, ?_⟩
  obtain ⟨r, result', hr, hok⟩ := run_rotateVaultKey henv ready
  rw [hok] at hrun
  obtain rfl := (Prod.mk.inj hrun).2
  obtain ⟨v, hv, -⟩ := h.stored
  obtain ⟨hstate, hconfig⟩ :=
    PreparedRotation.storeRows_vault r.newGeneration r.rewrapped (r.replaceVault w.db)
  have hroot : RootKeysFor (PreparedRotation.storeRows r.newGeneration r.rewrapped
      (r.replaceVault w.db)) passphrase r.newRootKeys :=
    ⟨r.newParams.toRecord, r.newParams, hconfig, hr.params, hr.rootKeys⟩
  have hgeneration : generationOf (PreparedRotation.storeRows r.newGeneration r.rewrapped
      (r.replaceVault w.db)) = generationOf w.db + 1 := by
    rw [generationOf, hstate, PreparedRotation.replaceVault, hv, ← hr.generation]
    rfl
  have hsequence : (PreparedRotation.storeRows r.newGeneration r.rewrapped
      (r.replaceVault w.db)).dekSequence = w.db.dekSequence :=
    PreparedRotation.dekSequence_storeRows _ _ _
  -- every row left is an old one with the blob made for it
  have hrows : ∀ row ∈ (PreparedRotation.storeRows r.newGeneration r.rewrapped
      (r.replaceVault w.db)).deks, ∃ old ∈ w.db.deks, row.dekId = old.dekId ∧
        row.vaultKeyGen = r.newGeneration ∧
        ∃ dek, minted row.dekId = some dek ∧ WrappedUnder r.newVaultKey row dek := by
    intro row hrow
    obtain ⟨old, hold, hid, ⟨blob, hblob, hwrapped, hgen⟩ | ⟨hnot, -⟩⟩ :=
      PreparedRotation.mem_storeRows hrow
    · refine ⟨old, hold, hid, hgen, ?_⟩
      obtain ⟨source, hsource, dek, hopen, heq⟩ := hr.blob_of_row hblob
      obtain ⟨hsame, rfl⟩ := Prod.mk.inj heq
      refine ⟨dek, ?_, hwrapped⟩
      rw [hid, hsame]
      exact h.table.opens ideal hsource hopen
    · exfalso
      apply hnot
      rw [hr.map_fst_rewrapped]
      exact List.mem_map_of_mem ((mem_orderBy _ _ _).mpr hold)
  refine ⟨r.newRootKeys, r.newVaultKey, hroot, ⟨⟨_, hconfig⟩, ?_, ?_, ?_⟩, rfl⟩
  · refine ⟨r.record v, ?_, rfl⟩
    rw [hstate, PreparedRotation.replaceVault, hv]
    rfl
  · intro keys hkeys
    cases hkeys
    rfl
  · constructor
    · intro row hrow
      obtain ⟨old, -, -, -, dek, hminted, hwrapped⟩ := hrows row hrow
      exact ⟨r.newVaultKey, dek, hminted, hwrapped⟩
    · intro row hrow _
      obtain ⟨old, -, -, -, dek, -, hwrapped⟩ := hrows row hrow
      exact ⟨dek, hwrapped⟩
    · intro row hrow
      obtain ⟨old, hold, hid, -⟩ := hrows row hrow
      rw [hsequence, hid]
      exact h.table.sequence old hold
    · rw [hsequence]
      exact h.table.ghost
    · intro row hrow
      obtain ⟨old, -, -, hgen, -⟩ := hrows row hrow
      rw [hgen, hgeneration, hr.generation]

/-! ## Batches of the lazy re-wrap -/

/-- What a batch keeps: the vault, its KDF row and its generation. -/
def EnvelopeBatch (settled : Prop) (minted : ℤ → Option P.Key) (kek e : P.Key)
    (config : Option VaultConfigRecord) (generation : ℤ) (master : Option P.Key)
    (w : VaultWorld P) : Prop :=
  EnvelopeVault settled minted kek e w ∧ w.db.vaultConfig = config ∧
    generationOf w.db = generation ∧ w.inner.map (·.masterKey) = master

/-- A blob that was fetched for an item holds the DEK the item's row was minted with. -/
def HoldsMinted (minted : ℤ → Option P.Key) (dekId : ℤ) (blob : Sized P.Wrapped) : Prop :=
  ∃ key dek, minted dekId = some dek ∧ blob = .exact (wrapKey key dek)

section Batch

variable {config : Option VaultConfigRecord} {generation : ℤ} {master : Option P.Key}

/-- A DEK wrapped again under the envelope key keeps the vault. -/
theorem EnvelopeBatch.setWrappedDek (h : EnvelopeBatch settled minted kek e config generation master w)
    {dekId : ℤ} {dek : P.Key} (hminted : minted dekId = some dek) :
    EnvelopeBatch settled minted kek e config generation master
      { w with db := Db.setWrappedDek dekId (wrapKey e dek) generation w.db } := by
  obtain ⟨hvault, hconfig, hgeneration, hmaster⟩ := h
  refine ⟨⟨hvault.config, hvault.stored, hvault.slot, ?_⟩, hconfig, hgeneration, hmaster⟩
  constructor
  · intro row hrow
    obtain ⟨old, hold, rfl⟩ := mem_updateWhere.mp hrow
    by_cases hid : old.dekId = dekId
    · simp only [hid, decide_true, if_true]
      exact ⟨e, dek, hminted, rfl⟩
    · simp only [hid, decide_false, Bool.false_eq_true, if_false]
      exact hvault.table.wrapped old hold
  · intro row hrow hcase
    obtain ⟨old, hold, rfl⟩ := mem_updateWhere.mp hrow
    by_cases hid : old.dekId = dekId
    · simp only [hid, decide_true, if_true]
      exact ⟨dek, rfl⟩
    · simp only [hid, decide_false, Bool.false_eq_true, if_false] at hcase ⊢
      exact hvault.table.current old hold hcase
  · intro row hrow
    obtain ⟨old, hold, rfl⟩ := mem_updateWhere.mp hrow
    have hle := hvault.table.sequence old hold
    split <;> exact hle
  · exact hvault.table.ghost
  · intro row hrow
    obtain ⟨old, hold, rfl⟩ := mem_updateWhere.mp hrow
    have hle := hvault.table.generation old hold
    split
    · exact hgeneration.symm.le
    · exact hle

/-- A change of the queue keeps the vault. -/
theorem EnvelopeBatch.withQueue (h : EnvelopeBatch settled minted kek e config generation master w)
    (rewrapQueue : List RewrapQueueItem) :
    EnvelopeBatch settled minted kek e config generation master
      { w with db := { w.db with rewrapQueue } } :=
  ⟨h.1.congr rfl rfl rfl rfl h.1.slot, h.2⟩

/-- Fetching the blobs of the queue gives minted DEKs. -/
theorem yields_fetchWrapped (items : List RewrapQueueItem) :
    (Db.fetchWrapped items).Yields (EnvelopeBatch settled minted kek e config generation master)
      fun batch => ∀ pair ∈ batch, HoldsMinted minted pair.1.dekId pair.2 := by
  induction items with
  | nil => exact fun pair hpair => by cases hpair
  | cons item rest ih =>
    rw [Db.fetchWrapped]
    apply Prog.Yields.bind (Q := fun record =>
      ∀ row, record = some row → HoldsMinted minted item.dekId row.wrappedDek)
    · apply Prog.Yields.query
      intro w hw row hfind
      have hid : row.dekId = item.dekId := by simpa using List.find?_some hfind
      obtain ⟨key, dek, hminted, hwrapped⟩ :=
        hw.1.table.wrapped row (List.mem_of_find?_eq_some hfind)
      rw [hid] at hminted
      exact ⟨key, dek, hminted, hwrapped⟩
    intro record hrecord
    apply (Prog.Yields.ofOption _ hrecord).bind
    intro row hrow
    apply ih.bind
    intro tail htail pair hpair
    rcases List.mem_cons.mp hpair with rfl | hmem
    · exact hrow
    · exact htail pair hmem

/-- Working off one item keeps the vault. -/
theorem keeps_rewrapItem (ideal : P.Ideal) (old : P.Key) {dekId : ℤ} {blob : Sized P.Wrapped}
    (hblob : HoldsMinted minted dekId blob) :
    (rewrapItem old e generation dekId blob).Keeps
      (EnvelopeBatch settled minted kek e config generation master) := by
  obtain ⟨key, dek, hminted, rfl⟩ := hblob
  rw [rewrapItem, Sized.tryInto_exact, Prog.ofOption_some, Prog.ret_bind]
  rcases hopen : unwrapKey old (wrapKey key dek) with err | plaintext
  · trivial
  obtain ⟨-, rfl⟩ := ideal.unwrapKey_wrapKey_eq_ok.mp hopen
  rw [liftCrypto_ok, Prog.ret_bind]
  apply (Prog.Keeps.exec fun w hw => hw.setWrappedDek hminted).bind
  intro _
  exact Prog.Keeps.exec fun w hw => hw.withQueue _

/-- Working off a batch keeps the vault. -/
theorem keeps_rewrapBatch (ideal : P.Ideal) (old : P.Key)
    {batch : List (RewrapQueueItem × Sized P.Wrapped)}
    (hbatch : ∀ pair ∈ batch, HoldsMinted minted pair.1.dekId pair.2) :
    (rewrapBatch old e generation batch).Keeps
      (EnvelopeBatch settled minted kek e config generation master) := by
  induction batch with
  | nil => trivial
  | cons pair rest ih =>
    have hrest := ih fun p hp => hbatch p (List.mem_cons_of_mem _ hp)
    apply ((keeps_rewrapItem ideal old (hbatch pair List.mem_cons_self)).attempt).bind
    intro result
    have htail : ∀ done : ℕ, (do
        let tail ← rewrapBatch old e generation rest
        pure (done + tail) : VaultProg P ℕ).Keeps
          (EnvelopeBatch settled minted kek e config generation master) :=
      fun _ => hrest.bind fun _ => trivial
    rcases result with err | ok
    · apply (Prog.Keeps.exec fun w hw => hw.withQueue _).bind
      intro _
      exact htail 0
    · exact htail 1

/-- Clearing the previous key keeps the vault. -/
theorem keeps_clearPreviousEnvelopeKey :
    (clearPreviousEnvelopeKey : VaultProg P Unit).Keeps
      (EnvelopeBatch settled minted kek e config generation master) := by
  apply Prog.Keeps.exec
  intro w ⟨hvault, hconfig, hgeneration, hmaster⟩
  refine ⟨hvault.congr rfl rfl rfl rfl ?_, hconfig, hgeneration, ?_⟩
  · intro keys hkeys
    rcases hinner : w.inner with _ | held
    · simp [hinner] at hkeys
    · simp only [hinner, Option.map_some, Option.some.injEq] at hkeys
      rw [← hkeys]
      exact hvault.slot held hinner
  · rw [← hmaster]
    cases w.inner <;> rfl

/-- Counting the queue keeps the vault. -/
theorem keeps_getRewrapStatus {I : VaultWorld P → Prop} :
    (Db.getRewrapStatus : VaultProg P (ℕ × ℕ × ℕ)).Keeps I := by
  apply (Prog.Keeps.query _).bind
  intro total
  apply (Prog.Keeps.query _).bind
  intro pending
  apply (Prog.Keeps.query _).bind
  exact fun _ => trivial

/-- A batch keeps the vault, whatever its outcome. -/
theorem outcome_of_processRewrapBatch (ideal : P.Ideal)
    (h : EnvelopeVault settled minted kek e w) (batchSize : ℤ) :
    EnvelopeBatch settled minted kek e w.db.vaultConfig (generationOf w.db)
      (w.inner.map (·.masterKey)) ((processRewrapBatch batchSize).run w).2 := by
  have hkept : EnvelopeBatch settled minted kek e w.db.vaultConfig (generationOf w.db)
      (w.inner.map (·.masterKey)) w := ⟨h, rfl, rfl, rfl⟩
  have henvelope := run_requireEnvelopeKey w
  rcases hinner : w.inner with _ | keys
  · rw [hinner, Option.bind_none] at henvelope
    rw [processRewrapBatch, Prog.run_bind_of_error henvelope, ← hinner]
    exact hkept
  rw [hinner, Option.bind_some, h.slot keys hinner] at henvelope
  rw [processRewrapBatch, Prog.run_bind_of_ok henvelope, ← hinner]
  refine Prog.Keeps.run ?_ hkept
  apply (Prog.Keeps.query _).bind
  intro previous
  rcases previous with _ | old
  · trivial
  apply Prog.Yields.bind_keeps (Q := fun batch =>
    ∀ pair ∈ batch, HoldsMinted minted pair.1.dekId pair.2)
  · exact fun t ht => ⟨ht, yields_fetchWrapped _⟩
  intro batch hbatch
  split
  · apply keeps_clearPreviousEnvelopeKey.bind
    exact fun _ => trivial
  · apply Prog.Keeps.query_bind
    intro t ht
    have hgeneration : generationOf t.db = generationOf w.db := ht.2.2.1
    show (rewrapBatch old e (generationOf t.db) batch >>= _).Keeps _
    rw [hgeneration]
    apply (keeps_rewrapBatch ideal old hbatch).bind
    intro processed
    apply keeps_getRewrapStatus.bind
    rintro ⟨total, pending, failed⟩
    dsimp only
    split
    · apply keeps_clearPreviousEnvelopeKey.bind
      exact fun _ => trivial
    · trivial

end Batch

end Invariant

end VaultKeyStore

end OmniDrive
