import OmniDrive.Vault.DekOutcome
import OmniDrive.Vault.Rotation

/-!
# What the rotations and the KDF migration do

Each operation is cut into its reads of the key slot, the statements between them and its write
of the slot. The outcome and the final state of each follow as one theorem for the case that
the operation is ready and one for the case that it is not.
-/

namespace OmniDrive

open StatementProgram Tables

variable {P : Primitives}

namespace VaultKeyStore

/-! ## Rotation to a new passphrase -/

/-- Re-wrapping one DEK succeeds exactly on a row that opens under the old key. -/
theorem rewrapOne_eq_ok {old new : P.Key} {row : WrappedDekRecord P} {out : ℤ × P.Wrapped} :
    rewrapOne old new row = .ok out ↔
      ∃ dek, OpensUnder old row dek ∧ out = (row.dekId, wrapKey new dek) := by
  unfold rewrapOne OpensUnder
  rcases row.wrappedDek with wrapped | bytes
  · rcases hunwrap : unwrapKey old wrapped with e | dek
    · simp [hunwrap]
    · simp [hunwrap, eq_comm]
  · simp

/-- Re-wrapping all DEKs is row by row. -/
theorem rewrapAll_eq_ok {old new : P.Key} {rows : List (WrappedDekRecord P)}
    {out : List (ℤ × P.Wrapped)} :
    rewrapAll old new rows = .ok out ↔
      List.Forall₂ (fun row o => ∃ dek, OpensUnder old row dek ∧ o = (row.dekId, wrapKey new dek))
        rows out := by
  simp only [rewrapAll, Prog.mapM_eq_ok, rewrapOne_eq_ok]

/-- Re-wrapping all DEKs succeeds exactly when every row opens under the old key. -/
theorem rewrapAll_isOk_iff {old new : P.Key} {rows : List (WrappedDekRecord P)} :
    (∃ out, rewrapAll old new rows = .ok out) ↔ ∀ row ∈ rows, ∃ dek, OpensUnder old row dek := by
  simp only [rewrapAll, Prog.mapM_isOk_iff, rewrapOne_eq_ok]
  apply forall₂_congr
  intro row _
  constructor
  · rintro ⟨out, dek, hdek, -⟩
    exact ⟨dek, hdek⟩
  · rintro ⟨dek, hdek⟩
    exact ⟨_, dek, hdek, rfl⟩

/-- What a rotation has computed before its first write. -/
structure PreparedRotation (P : Primitives) where
  newSalt : Bytes
  newParams : RootKdfParams
  newRootKeys : RootKeys P
  newVaultKey : P.Key
  newGeneration : ℤ
  rewrapped : List (ℤ × P.Wrapped)
  dekCount : ℕ

/-- The statements of a rotation between its read of the key slot and its first write. -/
def prepareRotation (newPassphrase : String) (oldEnvelopeKey : P.Key) :
    VaultProg P (PreparedRotation P) := do
  let oldGeneration ← currentVaultKeyGeneration
  let newSalt ← randomSalt
  let existingConfig ← Db.getVaultConfig
  let existingConfig ← Prog.ofOption (.invalidConfig "no vault_config found") existingConfig
  let newParams ← Prog.ofExcept (toRootKdfParams { existingConfig with salt := newSalt })
  let newRootKeys ← Prog.ofOption (.crypto .argon2) (deriveRootKeys P newPassphrase newParams)
  let newVaultKey ← generateRandomKey
  let allDeks ← Db.getAllWrappedDeks
  let rewrapped ← Prog.ofExcept (rewrapAll oldEnvelopeKey newVaultKey allDeks)
  pure { newSalt, newParams, newRootKeys, newVaultKey, newGeneration := oldGeneration + 1,
         rewrapped, dekCount := allDeks.length }

namespace PreparedRotation

/-- The database writes of a rotation. -/
def commit (r : PreparedRotation P) : VaultProg P Unit := do
  Db.rotateVaultState r.newSalt r.newParams.toArgon2Params
    (wrapKey r.newRootKeys.kek r.newVaultKey) r.newGeneration
  Db.setVaultConfig r.newParams.toRecord
  storeRewrapped r.newGeneration r.rewrapped

def keys (r : PreparedRotation P) : UnlockedVaultKeys P :=
  .withEnvelopeKey r.newRootKeys.masterKey r.newRootKeys.vaultKey r.newVaultKey

/-- The rows that a rotation leaves after storing the given re-wrapped blobs. -/
def storeRows (newGeneration : ℤ) (rewrapped : List (ℤ × P.Wrapped)) (db : VaultDb P) : VaultDb P :=
  rewrapped.foldl (fun db o => Db.setWrappedDek o.1 o.2 newGeneration db) db

/-- The row of `vault_state` that a rotation writes over an old one. -/
def record (r : PreparedRotation P) (v : VaultRecord P) : VaultRecord P :=
  { v with
    masterKeySalt := r.newSalt
    argon2Params := r.newParams.toArgon2Params
    encryptedVaultKey := some (.exact (wrapKey r.newRootKeys.kek r.newVaultKey))
    vaultKeyGeneration := some r.newGeneration }

/-- The vault's two rows after a rotation has replaced them. -/
def replaceVault (r : PreparedRotation P) (db : VaultDb P) : VaultDb P :=
  { db with
    vaultState := db.vaultState.map r.record
    vaultConfig := some r.newParams.toRecord }

end PreparedRotation

/-- A rotation reads the slot, prepares, commits and overwrites the slot. -/
theorem rotateVaultKey_eq {newPassphrase : String} (h : newPassphrase ≠ "") :
    (rotateVaultKey newPassphrase : VaultProg P RotationResult) = (do
      let oldEnvelopeKey ← requireEnvelopeKey
      let r ← prepareRotation newPassphrase oldEnvelopeKey
      r.commit
      writeSlot (some r.keys)
      pure { newGeneration := r.newGeneration, deksRewrapped := r.dekCount }) := by
  simp [rotateVaultKey, h, prepareRotation, PreparedRotation.commit, PreparedRotation.keys]

/-- What a rotation to the passphrase needs: a configured KDF that accepts it, and rows that all
open under the envelope key. -/
structure RotationReady (newPassphrase : String) (envelopeKey : P.Key) (w : VaultWorld P) :
    Prop where
  nonempty : newPassphrase ≠ ""
  derives : ∃ config params, w.db.vaultConfig = some config ∧ toRootKdfParams config = .ok params ∧
    (P.argon2 newPassphrase { params with salt := P.randomSalt w.draws }).isSome
  rows : ∀ row ∈ w.db.deks, ∃ dek, OpensUnder envelopeKey row dek

/-- What the preparation of a rotation takes from the tape, the database and the passphrase. -/
structure PreparedRotation.For (newPassphrase : String) (envelopeKey : P.Key) (w : VaultWorld P)
    (r : PreparedRotation P) : Prop where
  vaultKey : r.newVaultKey = P.randomKey (w.draws + 1)
  salt : r.newParams.salt = P.randomSalt w.draws
  params : toRootKdfParams r.newParams.toRecord = .ok r.newParams
  rootKeys : deriveRootKeys P newPassphrase r.newParams = some r.newRootKeys
  generation : r.newGeneration = generationOf w.db + 1
  rewraps : rewrapAll envelopeKey r.newVaultKey (orderBy (·.dekId) w.db.deks) = .ok r.rewrapped

/-- A rotation that is ready prepares in five statements and writes nothing. -/
theorem run_prepareRotation {newPassphrase : String} {envelopeKey : P.Key} {w : VaultWorld P}
    (ready : RotationReady newPassphrase envelopeKey w) :
    ∃ r, r.For newPassphrase envelopeKey w ∧
      (prepareRotation newPassphrase envelopeKey).run w =
        (.ok r, { w with draws := w.draws + 2 }) ∧
      (prepareRotation newPassphrase envelopeKey).count w = 5 := by
  obtain ⟨config, params, hconfig, hparams, hargon⟩ := ready.derives
  obtain ⟨master, hmaster⟩ := Option.isSome_iff_exists.mp hargon
  obtain ⟨rewrapped, hrewrap⟩ : ∃ out, rewrapAll envelopeKey (P.randomKey (w.draws + 1))
      (orderBy (·.dekId) w.db.deks) = .ok out := by
    rw [rewrapAll_isOk_iff]
    exact fun row hrow => ready.rows row ((mem_orderBy _ _ _).mp hrow)
  let newParams : RootKdfParams := { params with salt := P.randomSalt w.draws }
  have hnew : toRootKdfParams { config with salt := P.randomSalt w.draws } = .ok newParams := by
    rw [toRootKdfParams_salt, hparams]
    rfl
  have hroot : deriveRootKeys P newPassphrase newParams =
      some ⟨master, P.hkdfExpand master vaultKeyInfo, P.hkdfExpand master kekV2Info⟩ :=
    deriveRootKeys_eq_some.mpr ⟨master, hmaster, rfl⟩
  refine ⟨⟨P.randomSalt w.draws, newParams, _, P.randomKey (w.draws + 1),
    generationOf w.db + 1, rewrapped, w.db.deks.length⟩, ⟨rfl, rfl,
    toRootKdfParams_toRecord hnew, hroot, rfl, hrewrap⟩, ?_, ?_⟩
  · simp [prepareRotation, randomSalt, Db.getVaultConfig, hconfig, hnew, hroot,
      generateRandomKey, Db.getAllWrappedDeks, hrewrap, (orderBy_perm _ _).length_eq]
  · simp [prepareRotation, currentVaultKeyGeneration, Db.getVaultParams, selectDb, draw,
      randomSalt, Db.getVaultConfig, hconfig, hnew, hroot, generateRandomKey,
      Db.getAllWrappedDeks, hrewrap]

/-- A rotation that is not ready fails before its first write. -/
theorem run_prepareRotation_error {newPassphrase : String} {envelopeKey : P.Key}
    {w : VaultWorld P} (hpass : newPassphrase ≠ "")
    (hready : ¬ RotationReady newPassphrase envelopeKey w) :
    ∃ e d, (prepareRotation newPassphrase envelopeKey).run w =
      (.error e, { w with draws := d }) := by
  rcases hconfig : w.db.vaultConfig with _ | config
  · exact ⟨.invalidConfig "no vault_config found", w.draws + 1, by
      simp [prepareRotation, randomSalt, Db.getVaultConfig, hconfig]⟩
  have hsalt := toRootKdfParams_salt config (P.randomSalt w.draws)
  rcases hparams : toRootKdfParams config with e | params
  · rw [hparams] at hsalt
    exact ⟨e, w.draws + 1, by
      simp [prepareRotation, randomSalt, Db.getVaultConfig, hconfig, hsalt, Except.map]⟩
  rw [hparams] at hsalt
  rcases hroot : deriveRootKeys P newPassphrase { params with salt := P.randomSalt w.draws }
    with _ | root
  · exact ⟨.crypto .argon2, w.draws + 1, by
      simp [prepareRotation, randomSalt, Db.getVaultConfig, hconfig, hsalt, Except.map, hroot]⟩
  rcases hrewrap : rewrapAll envelopeKey (P.randomKey (w.draws + 1)) (orderBy (·.dekId) w.db.deks)
    with e | out
  · exact ⟨e, w.draws + 2, by
      simp [prepareRotation, randomSalt, Db.getVaultConfig, hconfig, hsalt, Except.map, hroot,
        generateRandomKey, Db.getAllWrappedDeks, hrewrap]⟩
  · exfalso
    apply hready
    obtain ⟨master, hmaster, -⟩ := deriveRootKeys_eq_some.mp hroot
    have hrows := rewrapAll_isOk_iff.mp ⟨out, hrewrap⟩
    refine ⟨hpass, ⟨config, params, hconfig, hparams, by rw [hmaster]; rfl⟩, fun row hrow => ?_⟩
    exact hrows row ((mem_orderBy _ _ _).mpr hrow)

/-- Storing the re-wrapped blobs always returns, one statement a blob. -/
theorem run_storeRewrapped (newGeneration : ℤ) (rewrapped : List (ℤ × P.Wrapped))
    (w : VaultWorld P) :
    (storeRewrapped newGeneration rewrapped).run w =
      (.ok (), { w with db := PreparedRotation.storeRows newGeneration rewrapped w.db }) := by
  induction rewrapped generalizing w with
  | nil => rfl
  | cons o rest ih =>
    rw [storeRewrapped, Db.updateWrappedDek, run_writeDb_bind, ih]
    rfl

/-- Storing blobs leaves the vault row and the KDF row alone. -/
theorem PreparedRotation.storeRows_vault (newGeneration : ℤ) (rewrapped : List (ℤ × P.Wrapped)) (db : VaultDb P) :
    (PreparedRotation.storeRows newGeneration rewrapped db).vaultState = db.vaultState ∧
      (PreparedRotation.storeRows newGeneration rewrapped db).vaultConfig = db.vaultConfig := by
  induction rewrapped generalizing db with
  | nil => exact ⟨rfl, rfl⟩
  | cons o rest ih => exact ih (Db.setWrappedDek o.1 o.2 newGeneration db)

/-- Storing blobs assigns no identifier. -/
theorem PreparedRotation.dekSequence_storeRows (newGeneration : ℤ)
    (rewrapped : List (ℤ × P.Wrapped)) (db : VaultDb P) :
    (PreparedRotation.storeRows newGeneration rewrapped db).dekSequence = db.dekSequence := by
  induction rewrapped generalizing db with
  | nil => rfl
  | cons o rest ih => exact ih (Db.setWrappedDek o.1 o.2 newGeneration db)

/-- Storing blobs leaves the row of this device alone. -/
theorem PreparedRotation.localDeviceIdentity_storeRows (newGeneration : ℤ)
    (rewrapped : List (ℤ × P.Wrapped)) (db : VaultDb P) :
    (PreparedRotation.storeRows newGeneration rewrapped db).localDeviceIdentity =
      db.localDeviceIdentity := by
  induction rewrapped generalizing db with
  | nil => rfl
  | cons o rest ih => exact ih (Db.setWrappedDek o.1 o.2 newGeneration db)

/-- A row after some blobs have been stored is an old row, or an old row with one of them. -/
theorem PreparedRotation.mem_storeRows {newGeneration : ℤ} {rewrapped : List (ℤ × P.Wrapped)}
    {db : VaultDb P} {row : WrappedDekRecord P}
    (h : row ∈ (storeRows newGeneration rewrapped db).deks) :
    ∃ old ∈ db.deks, row.dekId = old.dekId ∧
      ((∃ blob, (old.dekId, blob) ∈ rewrapped ∧ row.wrappedDek = .exact blob ∧
          row.vaultKeyGen = newGeneration) ∨
        (old.dekId ∉ rewrapped.map Prod.fst ∧ row = old)) := by
  induction rewrapped generalizing db with
  | nil => exact ⟨row, h, rfl, Or.inr ⟨by simp, rfl⟩⟩
  | cons o rest ih =>
    obtain ⟨mid, hmid, hid, hrest⟩ := ih h
    obtain ⟨old, hold, rfl⟩ := mem_updateWhere.mp hmid
    refine ⟨old, hold, ?_⟩
    by_cases ho : old.dekId = o.1
    · simp only [ho, decide_true, if_true] at hid hrest
      refine ⟨by rw [hid, ho], Or.inl ?_⟩
      rcases hrest with ⟨blob, hblob, hrow⟩ | ⟨_, hrow⟩
      · exact ⟨blob, List.mem_cons_of_mem _ (by rw [ho]; exact hblob), hrow⟩
      · exact ⟨o.2, by rw [ho]; exact List.mem_cons_self, by rw [hrow], by rw [hrow]⟩
    · simp only [ho, decide_false, Bool.false_eq_true, if_false] at hid hrest
      refine ⟨hid, ?_⟩
      rcases hrest with ⟨blob, hblob, hrow⟩ | ⟨hnot, hrow⟩
      · exact Or.inl ⟨blob, List.mem_cons_of_mem _ hblob, hrow⟩
      · refine Or.inr ⟨?_, hrow⟩
        rw [List.map_cons, List.mem_cons, not_or]
        exact ⟨ho, hnot⟩

theorem count_storeRewrapped (newGeneration : ℤ) (rewrapped : List (ℤ × P.Wrapped))
    (w : VaultWorld P) :
    (storeRewrapped newGeneration rewrapped).count w = rewrapped.length := by
  induction rewrapped generalizing w with
  | nil => rfl
  | cons o rest ih =>
    rw [storeRewrapped, Db.updateWrappedDek, writeDb, Prog.count_exec_bind, ih, List.length_cons]

/-- The database writes of a rotation always return. -/
theorem PreparedRotation.run_commit (r : PreparedRotation P) (w : VaultWorld P) :
    r.commit.run w = (.ok (),
      { w with db := storeRows r.newGeneration r.rewrapped (r.replaceVault w.db) }) := by
  simp only [commit, Db.rotateVaultState, Db.setVaultConfig, run_writeDb_bind]
  rw [run_storeRewrapped]
  rfl

/-- A rotation writes two rows of the vault and one row for each DEK. -/
theorem PreparedRotation.count_commit (r : PreparedRotation P) (w : VaultWorld P) :
    r.commit.count w = r.rewrapped.length + 2 := by
  simp only [commit, Db.rotateVaultState, Db.setVaultConfig, writeDb, Prog.count_exec_bind]
  rw [count_storeRewrapped]

/-- There is one re-wrapped blob for each DEK. -/
theorem PreparedRotation.For.length_rewrapped {newPassphrase : String} {envelopeKey : P.Key}
    {w : VaultWorld P} {r : PreparedRotation P} (h : r.For newPassphrase envelopeKey w) :
    r.rewrapped.length = w.db.deks.length := by
  rw [← (rewrapAll_eq_ok.mp h.rewraps).length_eq, (orderBy_perm _ _).length_eq]

/-- The blobs and the rows have the same identifiers in the same order. -/
theorem PreparedRotation.For.map_fst_rewrapped {newPassphrase : String} {envelopeKey : P.Key}
    {w : VaultWorld P} {r : PreparedRotation P} (h : r.For newPassphrase envelopeKey w) :
    r.rewrapped.map Prod.fst = (orderBy (·.dekId) w.db.deks).map (·.dekId) := by
  have hpairs := rewrapAll_eq_ok.mp h.rewraps
  symm
  rw [← List.forall₂_eq_eq_eq, List.forall₂_map_left_iff, List.forall₂_map_right_iff]
  apply hpairs.imp
  intro row o ⟨dek, _, ho⟩
  rw [ho]

/-- Every blob is the DEK of a row wrapped under the new vault key. -/
theorem PreparedRotation.For.blob_of_row {newPassphrase : String} {envelopeKey : P.Key}
    {w : VaultWorld P} {r : PreparedRotation P} (h : r.For newPassphrase envelopeKey w)
    {o : ℤ × P.Wrapped} (ho : o ∈ r.rewrapped) :
    ∃ row ∈ w.db.deks, ∃ dek, OpensUnder envelopeKey row dek ∧
      o = (row.dekId, wrapKey r.newVaultKey dek) := by
  have hpairs := rewrapAll_eq_ok.mp h.rewraps
  obtain ⟨i, rfl⟩ := List.mem_iff_get.mp ho
  have hlen : i.1 < (orderBy (·.dekId) w.db.deks).length := by
    rw [hpairs.length_eq]
    exact i.2
  obtain ⟨dek, hopen, heq⟩ := hpairs.get hlen i.2
  exact ⟨_, (mem_orderBy _ _ _).mp (List.get_mem _ _), dek, hopen, heq⟩

/-- Every blob is a DEK wrapped under the new vault key. -/
theorem PreparedRotation.For.blob_eq {newPassphrase : String} {envelopeKey : P.Key}
    {w : VaultWorld P} {r : PreparedRotation P} (h : r.For newPassphrase envelopeKey w)
    {o : ℤ × P.Wrapped} (ho : o ∈ r.rewrapped) : ∃ dek, o.2 = wrapKey r.newVaultKey dek := by
  obtain ⟨row, -, dek, -, heq⟩ := h.blob_of_row ho
  exact ⟨dek, congrArg Prod.snd heq⟩

/-- A rotation that is ready returns, with all rows re-wrapped and the new keys in the slot. -/
theorem run_rotateVaultKey {newPassphrase : String} {envelopeKey : P.Key} {w : VaultWorld P}
    (henv : w.inner.bind (·.envelopeVaultKey) = some envelopeKey)
    (ready : RotationReady newPassphrase envelopeKey w) :
    ∃ (r : PreparedRotation P) (result : RotationResult),
      r.For newPassphrase envelopeKey w ∧ (rotateVaultKey newPassphrase).run w = (.ok result,
        { db := PreparedRotation.storeRows r.newGeneration r.rewrapped (r.replaceVault w.db)
          inner := some r.keys
          draws := w.draws + 2
          now := w.now }) := by
  obtain ⟨r, hr, hrun, -⟩ := run_prepareRotation ready
  refine ⟨r, ⟨r.newGeneration, r.dekCount⟩, hr, ?_⟩
  rw [rotateVaultKey_eq ready.nonempty]
  have hslot := run_requireEnvelopeKey w
  rw [henv] at hslot
  rw [Prog.run_bind_of_ok hslot, Prog.run_bind_of_ok hrun, Prog.run_bind_of_ok (r.run_commit _)]
  rfl

/-- A rotation returns only from an unlocked vault that is ready for it. -/
theorem ready_of_rotateVaultKey_ok {newPassphrase : String} {w w' : VaultWorld P}
    {result : RotationResult} (h : (rotateVaultKey newPassphrase).run w = (.ok result, w')) :
    ∃ envelopeKey, w.inner.bind (·.envelopeVaultKey) = some envelopeKey ∧
      RotationReady newPassphrase envelopeKey w := by
  have hpass : newPassphrase ≠ "" := by
    rintro rfl
    simp [rotateVaultKey] at h
  rw [rotateVaultKey_eq hpass] at h
  have hslot := run_requireEnvelopeKey w
  rcases henv : w.inner.bind (·.envelopeVaultKey) with _ | envelopeKey
  · rw [henv] at hslot
    rw [Prog.run_bind_of_error hslot] at h
    simp at h
  refine ⟨envelopeKey, rfl, ?_⟩
  by_contra hready
  obtain ⟨e, d, hrun⟩ := run_prepareRotation_error hpass hready
  rw [henv] at hslot
  rw [Prog.run_bind_of_ok hslot, Prog.run_bind_of_error hrun] at h
  simp at h

/-! ## Rotation after a revocation -/

/-- The private key of this device opens under the identity KEK of the master key. -/
def OwnerKeyReadable (masterKey : P.Key) (db : VaultDb P) : Prop :=
  ∃ device blob key, db.localDeviceIdentity = some device ∧
    device.encryptedPrivateKey = some blob ∧
    P.gcmOpen (Identity.deriveIdentityKek masterKey) "" blob = some (.exact key)

/-- A readable device key is returned, and nothing changes. -/
theorem run_ownerPrivateKey {masterKey : P.Key} {w : VaultWorld P}
    (h : OwnerKeyReadable masterKey w.db) :
    ∃ key, (ownerPrivateKey masterKey).run w = (.ok key, w) := by
  obtain ⟨device, blob, key, hdevice, hblob, hopen⟩ := h
  have hdecrypt : Identity.decryptPrivateKey (Identity.deriveIdentityKek masterKey) blob =
      .ok key := by simp [Identity.decryptPrivateKey, hopen]
  have hrun : (Identity.getDevicePrivateKey masterKey).run w = (.ok key, w) := by
    simp [Identity.getDevicePrivateKey, Identity.localDevice, hdevice, hblob, hdecrypt]
  exact ⟨key, Prog.run_mapError_of_ok _ hrun⟩

/-- A device key that is missing or does not open is an error, and nothing changes. -/
theorem run_ownerPrivateKey_error {masterKey : P.Key} {w : VaultWorld P}
    (h : ¬ OwnerKeyReadable masterKey w.db) :
    ∃ e, (ownerPrivateKey masterKey).run w = (.error e, w) := by
  have herror : ∃ e, (Identity.getDevicePrivateKey masterKey).run w = (.error e, w) := by
    rcases hdevice : w.db.localDeviceIdentity with _ | device
    · simp [Identity.getDevicePrivateKey, Identity.localDevice, hdevice]
    rcases hblob : device.encryptedPrivateKey with _ | blob
    · simp [Identity.getDevicePrivateKey, Identity.localDevice, hdevice, hblob]
    rcases hopen : P.gcmOpen (Identity.deriveIdentityKek masterKey) "" blob with _ | key | bytes
    · simp [Identity.getDevicePrivateKey, Identity.localDevice, hdevice, hblob,
        Identity.decryptPrivateKey, hopen]
    · exact absurd ⟨device, blob, key, hdevice, hblob, hopen⟩ h
    · simp [Identity.getDevicePrivateKey, Identity.localDevice, hdevice, hblob,
        Identity.decryptPrivateKey, hopen]
  obtain ⟨e, he⟩ := herror
  exact ⟨_, Prog.run_mapError_of_error _ he⟩

/-- Wrapping for the devices of one member always returns, and touches the devices only. -/
theorem run_rewrapDevices (ownerPrivate newVaultKey : P.Key) (newGeneration : ℤ)
    (devs : List (DeviceRecord P)) (w : VaultWorld P) :
    ∃ n devices, (rewrapDevices ownerPrivate newVaultKey newGeneration devs).run w =
      (.ok n, { w with db := { w.db with devices } }) := by
  induction devs generalizing w with
  | nil => exact ⟨0, w.db.devices, rfl⟩
  | cons dev rest ih =>
    -- a device is skipped, or its row gets the new wrap
    have hskip : ∃ n devices, (do
        let tail ← rewrapDevices ownerPrivate newVaultKey newGeneration rest
        pure (0 + tail) : VaultProg P ℕ).run w = (.ok n, { w with db := { w.db with devices } }) := by
      obtain ⟨n, devices, hrest⟩ := ih w
      exact ⟨0 + n, devices, by rw [Prog.run_bind_of_ok hrest]; rfl⟩
    unfold rewrapDevices
    split
    · split
      · exact hskip
      · split
        · rename_i wrapped _
          obtain ⟨n, devices, hrest⟩ := ih { w with db := { w.db with
            devices := updateWhere (·.deviceId = dev.deviceId)
              (fun d => { d with
                wrappedVaultKey := some wrapped
                vaultKeyGeneration := some newGeneration }) w.db.devices } }
          refine ⟨1 + n, devices, ?_⟩
          simp only [Db.setDeviceWrappedVaultKey, Db.updateDevice, Prog.pure_eq_ret,
            Prog.ret_bind, run_writeDb_bind]
          rw [Prog.run_bind_of_ok hrest]
          rfl
        · exact hskip
    · exact hskip

/-- Wrapping for all members always returns, and touches the devices only. -/
theorem run_rewrapMembers (ownerPrivate newVaultKey : P.Key) (newGeneration : ℤ)
    (members : List VaultMemberRecord) (w : VaultWorld P) :
    ∃ n devices, (rewrapMembers ownerPrivate newVaultKey newGeneration members).run w =
      (.ok n, { w with db := { w.db with devices } }) := by
  induction members generalizing w with
  | nil => exact ⟨0, w.db.devices, rfl⟩
  | cons member rest ih =>
    obtain ⟨done, devices, hdone⟩ := run_rewrapDevices ownerPrivate newVaultKey newGeneration
      (orderBy (·.createdAt) <| w.db.devices.filter fun d =>
        d.userId = member.userId && d.revokedAt.isNone && d.wrappedVaultKey.isSome) w
    obtain ⟨n, devices', hrest⟩ := ih { w with db := { w.db with devices } }
    refine ⟨done + n, devices', ?_⟩
    simp only [rewrapMembers, Db.getActiveDevicesForUser, run_selectDb_bind]
    rw [Prog.run_bind_of_ok hdone, Prog.run_bind_of_ok hrest]
    rfl

/-- The statements of a revocation rotation between the write of its new key and its last check
of the key slot. -/
def revokeDevices (masterKey newVaultKey : P.Key) (newGeneration : ℤ)
    (vaultParams : Option (VaultRecord P)) : VaultProg P RevocationRotationResult := do
  let ownerPrivate ← ownerPrivateKey masterKey
  let vaultId ← Prog.ofOption (.invalidConfig "no vault_id") (vaultParams.map (·.vaultId))
  let members ← Db.listVaultMembers vaultId
  let devicesRewrapped ← rewrapMembers ownerPrivate newVaultKey newGeneration members
  let deksEnqueued ← Db.enqueueDeksForRewrap newGeneration
  pure { newGeneration, devicesRewrapped, deksEnqueued }

/-- The statements of a revocation rotation between its first reads of the key slot and its
last one. -/
def revokeBody (masterKey : P.Key) : VaultProg P (P.Key × RevocationRotationResult) := do
  let oldGeneration ← currentVaultKeyGeneration
  let newVaultKey ← generateRandomKey
  let newGeneration := oldGeneration + 1
  let vaultParams ← Db.getVaultParams
  Db.rotateVaultKeyOnly (wrapKey (deriveKek masterKey) newVaultKey) newGeneration
  let result ← revokeDevices masterKey newVaultKey newGeneration vaultParams
  pure (newVaultKey, result)

/-- A revocation rotation checks the vault key once more before it overwrites the slot. -/
theorem rotateForRevocation_eq :
    (rotateForRevocation : VaultProg P RevocationRotationResult) = (do
      let oldEnvelopeKey ← requireEnvelopeKey
      let masterKey ← requireMasterKey
      let r ← revokeBody masterKey
      let vaultKey ← requireKey
      writeSlot (some (.withPreviousKey masterKey vaultKey r.1 oldEnvelopeKey))
      pure r.2) := by
  simp [rotateForRevocation, revokeBody, revokeDevices]

/-- The stored envelope key replaced by a new one, under the next generation. -/
def replaceStoredKey (masterKey newVaultKey : P.Key) (db : VaultDb P) : VaultDb P :=
  { db with
    vaultState := db.vaultState.map fun v => { v with
      encryptedVaultKey := some (.exact (wrapKey (deriveKek masterKey) newVaultKey))
      vaultKeyGeneration := some (generationOf db + 1) } }

/-- What a revocation rotation needs besides an unlocked vault. -/
def RevocationReady (masterKey : P.Key) (db : VaultDb P) : Prop :=
  OwnerKeyReadable masterKey db ∧ db.vaultState.isSome

/-- The world after a revocation rotation has stored its new key. -/
def keyReplaced (masterKey : P.Key) (w : VaultWorld P) : VaultWorld P :=
  { w with
    db := replaceStoredKey masterKey (P.randomKey w.draws) w.db
    draws := w.draws + 1 }

/-- With a readable device key, the rest of a revocation rotation returns with the old DEKs
queued. -/
theorem run_revokeDevices {masterKey : P.Key} (newVaultKey : P.Key) (newGeneration : ℤ)
    (v : VaultRecord P) {w : VaultWorld P} (howner : OwnerKeyReadable masterKey w.db) :
    ∃ result devices, (revokeDevices masterKey newVaultKey newGeneration (some v)).run w =
      (.ok result, { w with db := { Db.enqueueOlder newGeneration w.db with devices } }) := by
  obtain ⟨ownerPrivate, hkey⟩ := run_ownerPrivateKey howner
  obtain ⟨n, devices, hmembers⟩ := run_rewrapMembers ownerPrivate newVaultKey newGeneration
    (orderBy (·.joinedAt) (w.db.vaultMembers.filter (·.vaultId = v.vaultId))) w
  refine ⟨⟨newGeneration, n, (Db.enqueueOlder newGeneration w.db).rewrapQueue.length -
    w.db.rewrapQueue.length⟩, devices, ?_⟩
  rw [revokeDevices, Prog.run_bind_of_ok hkey]
  simp only [Option.map_some, Prog.ofOption_some, Prog.ret_bind, Db.listVaultMembers,
    run_selectDb_bind]
  rw [Prog.run_bind_of_ok hmembers]
  rfl

/-- Without a readable device key or a vault row, the rest of a revocation rotation fails and
changes nothing. -/
theorem run_revokeDevices_error {masterKey : P.Key} (newVaultKey : P.Key) (newGeneration : ℤ)
    {vaultParams : Option (VaultRecord P)} {w : VaultWorld P}
    (h : ¬ (OwnerKeyReadable masterKey w.db ∧ vaultParams.isSome)) :
    ∃ e, (revokeDevices masterKey newVaultKey newGeneration vaultParams).run w =
      (.error e, w) := by
  rw [revokeDevices]
  by_cases howner : OwnerKeyReadable masterKey w.db
  · obtain ⟨key, hkey⟩ := run_ownerPrivateKey howner
    have hnone : vaultParams = none := by
      rcases vaultParams with _ | v
      · rfl
      · exact absurd ⟨howner, rfl⟩ h
    refine ⟨.invalidConfig "no vault_id", ?_⟩
    rw [Prog.run_bind_of_ok hkey, hnone]
    rfl
  · obtain ⟨e, he⟩ := run_ownerPrivateKey_error howner
    refine ⟨e, ?_⟩
    rw [Prog.run_bind_of_error he]

/-- A revocation rotation replaces the stored key before anything can stop it. -/
theorem run_revokeBody_start (masterKey : P.Key) (w : VaultWorld P) :
    (revokeBody masterKey).run w = (do
      let result ← revokeDevices masterKey (P.randomKey w.draws) (generationOf w.db + 1)
        w.db.vaultState
      pure (P.randomKey w.draws, result)).run (keyReplaced masterKey w) := rfl

/-- A revocation rotation that is ready reaches its last check with every old DEK queued. -/
theorem run_revokeBody {masterKey : P.Key} {w : VaultWorld P}
    (ready : RevocationReady masterKey w.db) :
    ∃ result devices, (revokeBody masterKey).run w =
      (.ok (P.randomKey w.draws, result),
        { w with
          db := { Db.enqueueOlder (generationOf w.db + 1)
            (replaceStoredKey masterKey (P.randomKey w.draws) w.db) with devices }
          draws := w.draws + 1 }) := by
  obtain ⟨howner, hstate⟩ := ready
  obtain ⟨v, hv⟩ := Option.isSome_iff_exists.mp hstate
  obtain ⟨result, devices, hrest⟩ := run_revokeDevices (P.randomKey w.draws)
    (generationOf w.db + 1) v (w := keyReplaced masterKey w) howner
  refine ⟨result, devices, ?_⟩
  rw [run_revokeBody_start, hv, Prog.run_bind_of_ok hrest]
  rfl

/-- A revocation rotation that is not ready fails after it has replaced the stored key. -/
theorem run_revokeBody_error {masterKey : P.Key} {w : VaultWorld P}
    (hready : ¬ RevocationReady masterKey w.db) :
    ∃ e, (revokeBody masterKey).run w = (.error e, keyReplaced masterKey w) := by
  obtain ⟨e, he⟩ := run_revokeDevices_error (P.randomKey w.draws) (generationOf w.db + 1)
    (w := keyReplaced masterKey w) hready
  refine ⟨e, ?_⟩
  rw [run_revokeBody_start, Prog.run_bind_of_error he]

section Revocation

variable {w : VaultWorld P} {keys : UnlockedVaultKeys P} {evk : P.Key}

/-- A revocation rotation that returns has queued the old DEKs and keeps the old key beside the
new one. -/
theorem run_rotateForRevocation (hinner : w.inner = some keys)
    (henv : keys.envelopeVaultKey = some evk) (ready : RevocationReady keys.masterKey w.db) :
    ∃ result devices, rotateForRevocation.run w =
      (.ok result,
        { db := { Db.enqueueOlder (generationOf w.db + 1)
            (replaceStoredKey keys.masterKey (P.randomKey w.draws) w.db) with devices }
          inner := some (.withPreviousKey keys.masterKey keys.vaultKey (P.randomKey w.draws) evk)
          draws := w.draws + 1
          now := w.now }) := by
  obtain ⟨result, devices, hbody⟩ := run_revokeBody ready
  refine ⟨result, devices, ?_⟩
  have henvelope := run_requireEnvelopeKey w
  have hmaster := run_requireMasterKey w
  simp only [hinner, Option.bind_some, henv] at henvelope hmaster
  rw [rotateForRevocation_eq, Prog.run_bind_of_ok henvelope, Prog.run_bind_of_ok hmaster,
    Prog.run_bind_of_ok hbody]
  have hkey := run_requireKey { w with
    db := { Db.enqueueOlder (generationOf w.db + 1)
      (replaceStoredKey keys.masterKey (P.randomKey w.draws) w.db) with devices }
    draws := w.draws + 1 }
  simp only [hinner] at hkey ⊢
  rw [Prog.run_bind_of_ok hkey]
  rfl

/-- A revocation rotation that is not ready leaves a new stored key that nothing was wrapped
under. -/
theorem run_rotateForRevocation_error (hinner : w.inner = some keys)
    (henv : keys.envelopeVaultKey = some evk) (hready : ¬ RevocationReady keys.masterKey w.db) :
    ∃ e, rotateForRevocation.run w = (.error e, keyReplaced keys.masterKey w) := by
  obtain ⟨e, hbody⟩ := run_revokeBody_error hready
  refine ⟨e, ?_⟩
  have henvelope := run_requireEnvelopeKey w
  have hmaster := run_requireMasterKey w
  simp only [hinner, Option.bind_some, henv] at henvelope hmaster
  rw [rotateForRevocation_eq, Prog.run_bind_of_ok henvelope, Prog.run_bind_of_ok hmaster,
    Prog.run_bind_of_error hbody]

/-- Without an envelope key in the slot, a revocation rotation stops at once. -/
theorem run_rotateForRevocation_locked (hinner : w.inner.bind (·.envelopeVaultKey) = none) :
    rotateForRevocation.run w = (.error .locked, w) := by
  have henvelope := run_requireEnvelopeKey w
  rw [hinner] at henvelope
  rw [rotateForRevocation_eq, Prog.run_bind_of_error henvelope]

/-- A revocation rotation returns only from an unlocked vault that is ready for it. -/
theorem ready_of_rotateForRevocation_ok {w' : VaultWorld P} {result : RevocationRotationResult}
    (h : rotateForRevocation.run w = (.ok result, w')) :
    ∃ keys evk, w.inner = some keys ∧ keys.envelopeVaultKey = some evk ∧
      RevocationReady keys.masterKey w.db := by
  rcases hinner : w.inner with _ | keys
  · rw [run_rotateForRevocation_locked (by rw [hinner]; rfl)] at h
    cases h
  rcases henv : keys.envelopeVaultKey with _ | evk
  · rw [run_rotateForRevocation_locked (by rw [hinner]; exact henv)] at h
    cases h
  refine ⟨keys, evk, rfl, henv, ?_⟩
  by_contra hready
  obtain ⟨e, hrun⟩ := run_rotateForRevocation_error hinner henv hready
  rw [hrun] at h
  cases h

end Revocation

/-! ## KDF migration -/

/-- What a migration has computed before its transaction. -/
structure PreparedMigration (P : Primitives) where
  writes : Db.KdfMigrationWrites P
  newRoot : RootKeys P

/-- The statements of a migration between its reads of the key slot and its transaction. -/
def prepareMigration (passphrase : String) (oldMaster envelopeKey oldVaultKey : P.Key) :
    VaultProg P (PreparedMigration P) := do
  let vault ← Db.getVaultParams
  let vault ← Prog.ofOption (.invalidConfig "no vault_state found") vault
  let newSalt ← randomSalt
  let newParams := targetKdfParams newSalt
  let newRoot ← Prog.ofOption (.crypto .argon2) (deriveRootKeys P passphrase newParams)
  let legacyBlob ← sealLegacyReadKey envelopeKey oldVaultKey vault.vaultId
  let device ← Db.getLocalDeviceIdentity
  let newDeviceBlob ← resealDeviceKey oldMaster newRoot.masterKey device
  pure { writes :=
           { newSalt
             newArgon2Params := newParams.toArgon2Params
             newEncryptedVaultKey := wrapKey newRoot.kek envelopeKey
             legacyReadKeyBlob := legacyBlob
             newEncryptedDevicePrivateKey := newDeviceBlob }
         newRoot }

/-- A migration reads the slot three times, prepares, commits and overwrites the slot. -/
theorem migrateKdfParamsIfNeeded_eq (passphrase : String) :
    (migrateKdfParamsIfNeeded passphrase : VaultProg P MigrationOutcome) = (do
      let cfg ← Db.getVaultConfig
      let cfg ← Prog.ofOption (.invalidConfig "no vault_config found") cfg
      if needsKdfMigration cfg.parameterSetVersion then
        let activeDevices ← Db.countActiveDevices
        if activeDevices > 1 then
          pure (.declined "multi-device vault: per-device KDF params deferred to α.C")
        else
          let oldMaster ← requireMasterKey
          let envelopeKey ← requireEnvelopeKey
          let oldVaultKey ← requireKey
          let r ← prepareMigration passphrase oldMaster envelopeKey oldVaultKey
          Db.migrateKdfParamsTx r.writes
          writeSlot (some (.withEnvelopeKey r.newRoot.masterKey r.newRoot.vaultKey envelopeKey))
          pure (.migrated cfg.parameterSetVersion targetParameterSetVersion)
      else pure .skipped) := by
  simp [migrateKdfParamsIfNeeded, prepareMigration]

/-- The stored device key, if there is one, opens under the identity KEK of the master key. -/
def DeviceKeyReseals (masterKey : P.Key) (db : VaultDb P) : Prop :=
  ∀ blob, db.localDeviceIdentity.bind (·.encryptedPrivateKey) = some blob →
    ∃ key, P.gcmOpen (Identity.deriveIdentityKek masterKey) "" blob = some (.exact key)

/-- What the preparation of a migration needs. -/
structure MigrationReady (passphrase : String) (masterKey : P.Key) (w : VaultWorld P) :
    Prop where
  vault : w.db.vaultState.isSome
  derives : (P.argon2 passphrase (targetKdfParams (P.randomSalt w.draws))).isSome
  device : DeviceKeyReseals masterKey w.db

/-- What the preparation of a migration takes from the tape, the database and the passphrase. -/
structure PreparedMigration.For (passphrase : String) (envelopeKey oldVaultKey : P.Key)
    (w : VaultWorld P) (r : PreparedMigration P) : Prop where
  salt : r.writes.newSalt = P.randomSalt w.draws
  params : r.writes.newArgon2Params = (targetKdfParams r.writes.newSalt).toArgon2Params
  rootKeys : deriveRootKeys P passphrase (targetKdfParams r.writes.newSalt) = some r.newRoot
  vaultKey : r.writes.newEncryptedVaultKey = wrapKey r.newRoot.kek envelopeKey
  legacy : ∀ v, w.db.vaultState = some v → ∃ nonce, r.writes.legacyReadKeyBlob =
    P.gcmSeal (deriveSubkey envelopeKey legacyReadKeyInfo) nonce v.vaultId (.exact oldVaultKey)

/-- The statements of a resealing: a nonce if there is a key to seal. -/
def resealStatements (db : VaultDb P) : ℕ :=
  if (db.localDeviceIdentity.bind (·.encryptedPrivateKey)).isSome then 1 else 0

/-- Resealing a readable device key takes at most one draw. -/
theorem run_resealDeviceKey {oldMaster : P.Key} (newMaster : P.Key) {w : VaultWorld P}
    (h : DeviceKeyReseals oldMaster w.db) :
    ∃ blob, (resealDeviceKey oldMaster newMaster w.db.localDeviceIdentity).run w =
      (.ok blob, { w with draws := w.draws + resealStatements w.db }) ∧
      (resealDeviceKey oldMaster newMaster w.db.localDeviceIdentity).count w =
        resealStatements w.db := by
  unfold resealDeviceKey resealStatements
  rcases hblob : w.db.localDeviceIdentity.bind (·.encryptedPrivateKey) with _ | blob
  · exact ⟨none, rfl, rfl⟩
  · obtain ⟨key, hkey⟩ := h blob hblob
    have hdecrypt : Identity.decryptPrivateKey (Identity.deriveIdentityKek oldMaster) blob =
        .ok key := by simp [Identity.decryptPrivateKey, hkey]
    have hreseal : Identity.resealLocalDevicePrivateKey oldMaster newMaster w.draws blob =
        .ok (Identity.encryptPrivateKey (Identity.deriveIdentityKek newMaster) w.draws key) := by
      rw [Identity.resealLocalDevicePrivateKey, hdecrypt]
      rfl
    refine ⟨some (Identity.encryptPrivateKey (Identity.deriveIdentityKek newMaster) w.draws key),
      ?_, ?_⟩
    · simp only [run_draw_bind, id_eq, hreseal]
      rfl
    · simp [draw, hreseal]

/-- A device key that does not open stops the resealing. -/
theorem run_resealDeviceKey_error {oldMaster : P.Key} (newMaster : P.Key) {w : VaultWorld P}
    (h : ¬ DeviceKeyReseals oldMaster w.db) :
    ∃ e, (resealDeviceKey oldMaster newMaster w.db.localDeviceIdentity).run w =
      (.error e, { w with draws := w.draws + 1 }) := by
  simp only [DeviceKeyReseals, not_forall] at h
  obtain ⟨blob, hblob, hopen⟩ := h
  have hdecrypt : ∃ e, Identity.decryptPrivateKey (Identity.deriveIdentityKek oldMaster) blob =
      .error e := by
    rcases hgcm : P.gcmOpen (Identity.deriveIdentityKek oldMaster) "" blob with _ | key | bytes
    · simp [Identity.decryptPrivateKey, hgcm]
    · exact absurd ⟨key, hgcm⟩ hopen
    · simp [Identity.decryptPrivateKey, hgcm]
  obtain ⟨e, he⟩ := hdecrypt
  have hreseal : Identity.resealLocalDevicePrivateKey oldMaster newMaster w.draws blob =
      .error e := by
    rw [Identity.resealLocalDevicePrivateKey, he]
    rfl
  refine ⟨.invalidConfig "device key reseal failed", ?_⟩
  rw [resealDeviceKey, hblob]
  simp [hreseal]

/-- A migration that is ready prepares without writing. -/
theorem run_prepareMigration {passphrase : String} {oldMaster : P.Key}
    (envelopeKey oldVaultKey : P.Key) {w : VaultWorld P} (ready : MigrationReady passphrase oldMaster w) :
    ∃ r d, r.For passphrase envelopeKey oldVaultKey w ∧
      (prepareMigration passphrase oldMaster envelopeKey oldVaultKey).run w =
        (.ok r, { w with draws := d }) ∧ w.draws < d ∧
      (prepareMigration passphrase oldMaster envelopeKey oldVaultKey).count w =
        4 + resealStatements w.db := by
  obtain ⟨v, hv⟩ := Option.isSome_iff_exists.mp ready.vault
  obtain ⟨master, hmaster⟩ := Option.isSome_iff_exists.mp ready.derives
  let root : RootKeys P :=
    ⟨master, P.hkdfExpand master vaultKeyInfo, P.hkdfExpand master kekV2Info⟩
  have hroot : deriveRootKeys P passphrase (targetKdfParams (P.randomSalt w.draws)) = some root :=
    deriveRootKeys_eq_some.mpr ⟨master, hmaster, rfl⟩
  let drawn : VaultWorld P := { w with draws := w.draws + 2 }
  obtain ⟨blob, hrun, hcount⟩ := run_resealDeviceKey master (w := drawn)
    ready.device
  let writes : Db.KdfMigrationWrites P :=
    { newSalt := P.randomSalt w.draws
      newArgon2Params := (targetKdfParams (P.randomSalt w.draws)).toArgon2Params
      newEncryptedVaultKey := wrapKey root.kek envelopeKey
      legacyReadKeyBlob := P.gcmSeal (deriveSubkey envelopeKey legacyReadKeyInfo) (w.draws + 1)
        v.vaultId (.exact oldVaultKey)
      newEncryptedDevicePrivateKey := blob }
  have hlegacy : ∀ v', w.db.vaultState = some v' → ∃ nonce, writes.legacyReadKeyBlob =
      P.gcmSeal (deriveSubkey envelopeKey legacyReadKeyInfo) nonce v'.vaultId
        (.exact oldVaultKey) := by
    intro v' hv'
    obtain rfl : v = v' := Option.some.inj (hv.symm.trans hv')
    exact ⟨w.draws + 1, rfl⟩
  refine ⟨⟨writes, root⟩, w.draws + 2 + resealStatements w.db,
    ⟨rfl, rfl, hroot, rfl, hlegacy⟩, ?_, by omega, ?_⟩
  · simp only [prepareMigration, Db.getVaultParams, run_selectDb_bind, hv, Prog.ofOption_some,
      Prog.ret_bind, randomSalt, run_draw_bind, hroot, sealLegacyReadKey, encryptSecret,
      Prog.bind_assoc, Prog.pure_eq_ret, id_eq, Db.getLocalDeviceIdentity]
    rw [Prog.run_bind_of_ok hrun]
    rfl
  · simp only [prepareMigration, Db.getVaultParams, selectDb, Prog.count_query_bind, hv,
      Prog.ofOption_some, Prog.ret_bind, randomSalt, draw, Prog.count_execReturning_bind, hroot,
      sealLegacyReadKey, encryptSecret, Prog.bind_assoc, Prog.pure_eq_ret,
      Db.getLocalDeviceIdentity]
    rw [Prog.count_bind_of_ok hrun, hcount]
    simp [resealStatements, drawn]
    omega

/-- A migration that is not ready fails before its transaction. -/
theorem run_prepareMigration_error {passphrase : String} {oldMaster : P.Key}
    (envelopeKey oldVaultKey : P.Key) {w : VaultWorld P}
    (hready : ¬ MigrationReady passphrase oldMaster w) :
    ∃ e d, (prepareMigration passphrase oldMaster envelopeKey oldVaultKey).run w =
      (.error e, { w with draws := d }) := by
  rcases hv : w.db.vaultState with _ | v
  · exact ⟨.invalidConfig "no vault_state found", w.draws, by
      simp [prepareMigration, Db.getVaultParams, hv]⟩
  rcases hroot : deriveRootKeys P passphrase (targetKdfParams (P.randomSalt w.draws)) with _ | root
  · exact ⟨.crypto .argon2, w.draws + 1, by
      simp [prepareMigration, Db.getVaultParams, hv, randomSalt, hroot]⟩
  have hdevice : ¬ DeviceKeyReseals oldMaster w.db := by
    intro hdevice
    obtain ⟨master, hmaster, -⟩ := deriveRootKeys_eq_some.mp hroot
    exact hready ⟨by rw [hv]; rfl, by rw [hmaster]; rfl, hdevice⟩
  obtain ⟨e, he⟩ := run_resealDeviceKey_error root.masterKey
    (w := { w with draws := w.draws + 2 }) hdevice
  refine ⟨e, w.draws + 2 + 1, ?_⟩
  simp only [prepareMigration, Db.getVaultParams, run_selectDb_bind, hv, Prog.ofOption_some,
    Prog.ret_bind, randomSalt, run_draw_bind, hroot, sealLegacyReadKey, encryptSecret,
    Prog.bind_assoc, Prog.pure_eq_ret, Db.getLocalDeviceIdentity]
  rw [Prog.run_bind_of_error he]

section Migration

variable {w : VaultWorld P} {passphrase : String} {keys : UnlockedVaultKeys P} {evk : P.Key}
variable {cfg : VaultConfigRecord}

variable (passphrase) in
/-- A vault whose parameters are current, or that has a second active device, is left alone. -/
theorem run_migrate_idle (hcfg : w.db.vaultConfig = some cfg)
    (hidle : needsKdfMigration cfg.parameterSetVersion = false ∨
      1 < (w.db.devices.filter (·.revokedAt.isNone)).length) :
    ∃ outcome, (migrateKdfParamsIfNeeded passphrase).run w = (.ok outcome, w) := by
  rcases hneeds : needsKdfMigration cfg.parameterSetVersion with _ | _
  · exact ⟨.skipped, by simp [migrateKdfParamsIfNeeded, Db.getVaultConfig, hcfg, hneeds]⟩
  · have hdevices : 1 < (w.db.devices.filter (·.revokedAt.isNone)).length := by
      rcases hidle with h | h
      · rw [hneeds] at h
        cases h
      · exact h
    refine ⟨.declined "multi-device vault: per-device KDF params deferred to α.C", ?_⟩
    simp only [migrateKdfParamsIfNeeded, Db.getVaultConfig, run_selectDb_bind, hcfg,
      Prog.ofOption_some, Prog.ret_bind, hneeds, if_true, Db.countActiveDevices]
    rw [if_pos hdevices]
    rfl

/-- The part of a migration after its tests is a straight line. -/
theorem run_migrate_start (hcfg : w.db.vaultConfig = some cfg)
    (hneeds : needsKdfMigration cfg.parameterSetVersion = true)
    (hdevices : ¬ 1 < (w.db.devices.filter (·.revokedAt.isNone)).length)
    (hinner : w.inner = some keys) (henv : keys.envelopeVaultKey = some evk) :
    (migrateKdfParamsIfNeeded passphrase).run w = (do
      let r ← prepareMigration passphrase keys.masterKey evk keys.vaultKey
      Db.migrateKdfParamsTx r.writes
      writeSlot (some (.withEnvelopeKey r.newRoot.masterKey r.newRoot.vaultKey evk))
      pure (MigrationOutcome.migrated cfg.parameterSetVersion targetParameterSetVersion)).run w := by
  have hmaster := run_requireMasterKey w
  have henvelope := run_requireEnvelopeKey w
  have hkey := run_requireKey w
  simp only [hinner, Option.bind_some, henv] at hmaster henvelope hkey
  rw [migrateKdfParamsIfNeeded_eq]
  simp only [Db.getVaultConfig, run_selectDb_bind, hcfg, Prog.ofOption_some, Prog.ret_bind, hneeds,
    if_true, Db.countActiveDevices]
  rw [if_neg hdevices, Prog.run_bind_of_ok hmaster, Prog.run_bind_of_ok henvelope,
    Prog.run_bind_of_ok hkey]

/-- A migration that is needed and ready commits its writes and replaces the keys. -/
theorem run_migrate (hcfg : w.db.vaultConfig = some cfg)
    (hneeds : needsKdfMigration cfg.parameterSetVersion = true)
    (hdevices : ¬ 1 < (w.db.devices.filter (·.revokedAt.isNone)).length)
    (hinner : w.inner = some keys) (henv : keys.envelopeVaultKey = some evk)
    (ready : MigrationReady passphrase keys.masterKey w) :
    ∃ outcome r d, PreparedMigration.For passphrase evk keys.vaultKey w r ∧ w.draws < d ∧
      (migrateKdfParamsIfNeeded passphrase).run w =
        (.ok outcome,
          { db := Db.applyKdfMigration r.writes w.db
            inner := some (.withEnvelopeKey r.newRoot.masterKey r.newRoot.vaultKey evk)
            draws := d
            now := w.now }) := by
  obtain ⟨r, d, hr, hrun, hd, -⟩ := run_prepareMigration evk keys.vaultKey ready
  refine ⟨.migrated cfg.parameterSetVersion targetParameterSetVersion, r, d, hr, hd, ?_⟩
  rw [run_migrate_start hcfg hneeds hdevices hinner henv, Prog.run_bind_of_ok hrun]
  rfl

/-- A migration that is needed returns only when it gets to its writes. -/
theorem ready_of_migrate_ok {w' : VaultWorld P} {outcome : MigrationOutcome}
    (hcfg : w.db.vaultConfig = some cfg)
    (hneeds : needsKdfMigration cfg.parameterSetVersion = true)
    (hdevices : (w.db.devices.filter (·.revokedAt.isNone)).length ≤ 1)
    (h : (migrateKdfParamsIfNeeded passphrase).run w = (.ok outcome, w')) :
    ∃ keys evk, w.inner = some keys ∧ keys.envelopeVaultKey = some evk ∧
      MigrationReady passphrase keys.masterKey w := by
  have hmaster := run_requireMasterKey w
  have henvelope := run_requireEnvelopeKey w
  rw [migrateKdfParamsIfNeeded_eq] at h
  simp only [Db.getVaultConfig, run_selectDb_bind, hcfg, Prog.ofOption_some, Prog.ret_bind, hneeds,
    if_true, Db.countActiveDevices] at h
  rw [if_neg (not_lt.mpr hdevices)] at h
  rcases hinner : w.inner with _ | keys
  · rw [hinner] at hmaster
    rw [Prog.run_bind_of_error hmaster] at h
    cases h
  rw [hinner] at hmaster henvelope
  rw [Prog.run_bind_of_ok hmaster] at h
  rcases henv : keys.envelopeVaultKey with _ | evk
  · rw [Option.bind_some, henv] at henvelope
    rw [Prog.run_bind_of_error henvelope] at h
    cases h
  rw [Option.bind_some, henv] at henvelope
  have hkey := run_requireKey w
  rw [hinner] at hkey
  rw [Prog.run_bind_of_ok henvelope, Prog.run_bind_of_ok hkey] at h
  refine ⟨keys, evk, rfl, henv, ?_⟩
  by_contra hready
  obtain ⟨e, d, hrun⟩ := run_prepareMigration_error evk keys.vaultKey hready
  rw [Prog.run_bind_of_error hrun] at h
  cases h

/-- A migration returns only when it has nothing to do or gets to its writes. -/
theorem migrate_ok_cases {w' : VaultWorld P} {outcome : MigrationOutcome}
    (h : (migrateKdfParamsIfNeeded passphrase).run w = (.ok outcome, w')) :
    w' = w ∨ ∃ cfg keys evk, w.db.vaultConfig = some cfg ∧
      needsKdfMigration cfg.parameterSetVersion = true ∧
      (w.db.devices.filter (·.revokedAt.isNone)).length ≤ 1 ∧ w.inner = some keys ∧
      keys.envelopeVaultKey = some evk ∧ MigrationReady passphrase keys.masterKey w := by
  rcases hcfg : w.db.vaultConfig with _ | cfg
  · simp [migrateKdfParamsIfNeeded, Db.getVaultConfig, hcfg] at h
  by_cases hidle : needsKdfMigration cfg.parameterSetVersion = false ∨
      1 < (w.db.devices.filter (·.revokedAt.isNone)).length
  · obtain ⟨outcome', hrun⟩ := run_migrate_idle passphrase hcfg hidle
    rw [hrun] at h
    cases h
    exact Or.inl rfl
  rw [not_or, Bool.not_eq_false, not_lt] at hidle
  obtain ⟨hneeds, hdevices⟩ := hidle
  obtain ⟨keys, evk, hinner, henv, hready⟩ := ready_of_migrate_ok hcfg hneeds hdevices h
  exact Or.inr ⟨cfg, keys, evk, rfl, hneeds, hdevices, hinner, henv, hready⟩

end Migration

end VaultKeyStore

end OmniDrive
