import OmniDrive.Vault.LegacyRead

/-!
# The secrets of this device over the life of a vault

The X25519 and the ML-KEM private key of this device are sealed under a key that the master key
derives. The KDF migration and the rotation to a new passphrase replace the master key. The
migration seals the X25519 key again and leaves the ML-KEM key, the rotation leaves both, and no
later generation of a key pair looks at more than the public half.
-/

namespace OmniDrive

open StatementProgram GuardedRuns

variable {P : Primitives}

namespace Identity

def openSecretBlob (kek : P.Key) (blob : P.Sealed) : Except IdentityError (Sized P.Key) :=
  match P.gcmOpen kek "" blob with
  | none => .error (.crypto "AES-GCM decrypt")
  | some plaintext => .ok plaintext

def getDeviceKyberPrivateKey (masterKey : P.Key) : IdentityProg P (Sized P.Key) := do
  let device ← localDevice
  let encrypted ← Prog.ofOption (.crypto "no encrypted kyber private key stored")
    device.encryptedKyberPrivateKey
  Prog.ofExcept (openSecretBlob (deriveIdentityKek masterKey) encrypted)

end Identity

namespace VaultKeyStore

/-! ## Runs -/

/-- The operations of a run. -/
inductive DeviceOp where
  | ensureDeviceKeypair
  | ensureDeviceKyberKeypair
  | migrateKdfParamsIfNeeded (passphrase : String)
  | rotateVaultKey (newPassphrase : String)
  deriving DecidableEq, Repr

/-- The public X25519 key of this device, if there is one. -/
def publishedKey (w : VaultWorld P) : Option P.Key :=
  w.db.localDeviceIdentity.bind fun d => d.publicKey.bind Sized.tryInto

/-- The encapsulation key of this device, if there is one. -/
def publishedKyberKey (w : VaultWorld P) : Option Bytes :=
  w.db.localDeviceIdentity.bind (·.kyberPublicKey)

/-- A migration has something to do: the parameters are old, and there is no second device. -/
def Migrates (w : VaultWorld P) : Prop :=
  ∃ cfg, w.db.vaultConfig = some cfg ∧ needsKdfMigration cfg.parameterSetVersion = true ∧
    (w.db.devices.filter (·.revokedAt.isNone)).length ≤ 1

namespace DeviceOp

/-- Whether the operation returned, and the world it left. The generations of key pairs are
called with the master key in memory. -/
def outcome (op : DeviceOp) (w : VaultWorld P) : Bool × VaultWorld P :=
  match op with
  | .ensureDeviceKeypair => withMaster Identity.ensureDeviceKeypair
  | .ensureDeviceKyberKeypair => withMaster Identity.ensureDeviceKyberKeypair
  | .migrateKdfParamsIfNeeded passphrase =>
    ofRun ((VaultKeyStore.migrateKdfParamsIfNeeded passphrase).run w)
  | .rotateVaultKey newPassphrase => ofRun ((VaultKeyStore.rotateVaultKey newPassphrase).run w)
where
  /-- Forget the returned value. -/
  ofRun {ε α : Type} (r : Except ε α × VaultWorld P) : Bool × VaultWorld P := (r.1.toBool, r.2)
  /-- Call with the master key in memory. -/
  withMaster {α : Type} (p : P.Key → Identity.IdentityProg P α) : Bool × VaultWorld P :=
    match w.inner with
    | none => (false, w)
    | some keys => ofRun ((p keys.masterKey).run w)

def step (op : DeviceOp) (w : VaultWorld P) : VaultWorld P := (op.outcome w).2

/-- The operation returns `Ok`. -/
def ReturnsOk (op : DeviceOp) (w : VaultWorld P) : Prop := (op.outcome w).1 = true

/-- The operation keeps the secrets: a rotation finds no public key of this device, and a
migration that has something to do no encapsulation key. -/
def KeepsSecrets (op : DeviceOp) (w : VaultWorld P) : Prop :=
  match op with
  | .rotateVaultKey _ => publishedKey w = none ∧ publishedKyberKey w = none
  | .migrateKdfParamsIfNeeded _ => Migrates w → publishedKyberKey w = none
  | _ => True

end DeviceOp

/-- The private halves of the public keys of this device are read under the master key in
memory. -/
def SecretsSurvive (w : VaultWorld P) : Prop :=
  ∀ keys, w.inner = some keys →
    (∀ publicKey, publishedKey w = some publicKey → ∃ secret,
      publicKey = P.x25519Public secret ∧
        ((Identity.getDevicePrivateKey keys.masterKey).run w).1 = .ok secret) ∧
    ∀ encapsKey, publishedKyberKey w = some encapsKey → ∃ pair,
      encapsKey = (P.mlKem768 pair).1 ∧
        ((Identity.getDeviceKyberPrivateKey keys.masterKey).run w).1 =
          .ok (.other (P.mlKem768 pair).2)

/-! ## The invariant -/

/-- The private halves are sealed under the identity KEK of the master key. -/
structure HeldUnder (masterKey : P.Key) (device : LocalDeviceIdentityRecord P) : Prop where
  x25519 : ∀ publicKey, device.publicKey = some (.exact publicKey) → ∃ secret nonce,
    publicKey = P.x25519Public secret ∧ device.encryptedPrivateKey =
      some (Identity.encryptPrivateKey (Identity.deriveIdentityKek masterKey) nonce secret)
  kyber : ∀ encapsKey, device.kyberPublicKey = some encapsKey → ∃ pair nonce,
    encapsKey = (P.mlKem768 pair).1 ∧ device.encryptedKyberPrivateKey =
      some (Identity.sealSecretBlob (Identity.deriveIdentityKek masterKey) nonce
        (P.mlKem768 pair).2)

/-- An unlocked vault that holds the secrets of its device, where no later salt gives the master
key again. -/
structure SecretsHeldWith (keys : UnlockedVaultKeys P) (w : VaultWorld P) : Prop where
  unlocked : w.inner = some keys
  held : ∀ device, w.db.localDeviceIdentity = some device → HeldUnder keys.masterKey device
  freshMaster : ∀ n passphrase (params : RootKdfParams), w.draws ≤ n →
    P.argon2 passphrase { params with salt := P.randomSalt n } ≠ some keys.masterKey

def SecretsHeld (w : VaultWorld P) : Prop := ∃ keys, SecretsHeldWith keys w

section Read

variable {keys : UnlockedVaultKeys P} {w : VaultWorld P} {device : LocalDeviceIdentityRecord P}

theorem run_getDevicePrivateKey {masterKey : P.Key} {blob : P.Sealed}
    (hdevice : w.db.localDeviceIdentity = some device)
    (hblob : device.encryptedPrivateKey = some blob) :
    ((Identity.getDevicePrivateKey masterKey).run w).1 =
      Identity.decryptPrivateKey (Identity.deriveIdentityKek masterKey) blob := by
  simp only [Identity.getDevicePrivateKey, Identity.localDevice, Prog.bind_assoc,
    Prog.run_query_bind, hdevice, Prog.ofOption_some, Prog.ret_bind, hblob]
  cases Identity.decryptPrivateKey (Identity.deriveIdentityKek masterKey) blob <;> rfl

theorem run_getDeviceKyberPrivateKey {masterKey : P.Key} {blob : P.Sealed}
    (hdevice : w.db.localDeviceIdentity = some device)
    (hblob : device.encryptedKyberPrivateKey = some blob) :
    ((Identity.getDeviceKyberPrivateKey masterKey).run w).1 =
      Identity.openSecretBlob (Identity.deriveIdentityKek masterKey) blob := by
  simp only [Identity.getDeviceKyberPrivateKey, Identity.localDevice, Prog.bind_assoc,
    Prog.run_query_bind, hdevice, Prog.ofOption_some, Prog.ret_bind, hblob]
  cases Identity.openSecretBlob (Identity.deriveIdentityKek masterKey) blob <;> rfl

/-- A sealed private key opens under the identity KEK of its master key. -/
theorem decryptPrivateKey_encryptPrivateKey (ideal : P.Ideal) (masterKey : P.Key) (nonce : ℕ)
    (secret : P.Key) : Identity.decryptPrivateKey (Identity.deriveIdentityKek masterKey)
      (Identity.encryptPrivateKey (Identity.deriveIdentityKek masterKey) nonce secret) =
        .ok secret := by
  rw [Identity.decryptPrivateKey, Identity.encryptPrivateKey, ideal.gcmOpen_gcmSeal]

/-- It opens under the identity KEK of no other master key. -/
theorem gcmOpen_otherMaster (ideal : P.Ideal) {old new : P.Key} (hne : new ≠ old) (nonce : ℕ)
    (plaintext : Sized P.Key) : P.gcmOpen (Identity.deriveIdentityKek new) ""
      (P.gcmSeal (Identity.deriveIdentityKek old) nonce "" plaintext) = none := by
  apply ideal.gcmOpen_other
  intro heq
  exact hne (ideal.hkdfExpand_inj heq).1.symm

theorem publishedKey_eq_some {publicKey : P.Key} : publishedKey w = some publicKey ↔
    ∃ device, w.db.localDeviceIdentity = some device ∧
      device.publicKey = some (.exact publicKey) := by
  unfold publishedKey
  rw [Option.bind_eq_some_iff]
  constructor
  · rintro ⟨device, hdevice, hkey⟩
    refine ⟨device, hdevice, ?_⟩
    obtain ⟨column, hcolumn, hexact⟩ := Option.bind_eq_some_iff.mp hkey
    cases column with
    | exact key =>
      cases hexact
      exact hcolumn
    | other bytes => cases hexact
  · rintro ⟨device, hdevice, hkey⟩
    exact ⟨device, hdevice, by rw [hkey]; rfl⟩

theorem publishedKyberKey_eq_some {encapsKey : Bytes} : publishedKyberKey w = some encapsKey ↔
    ∃ device, w.db.localDeviceIdentity = some device ∧
      device.kyberPublicKey = some encapsKey := Option.bind_eq_some_iff

/-- Held secrets survive. -/
theorem SecretsHeldWith.survive (ideal : P.Ideal) (h : SecretsHeldWith keys w) :
    SecretsSurvive w := by
  intro keys' hkeys
  rw [h.unlocked, Option.some.injEq] at hkeys
  rw [← hkeys]
  constructor
  · intro publicKey hpublished
    obtain ⟨device, hdevice, hkey⟩ := publishedKey_eq_some.mp hpublished
    obtain ⟨secret, nonce, hpublic, hblob⟩ := (h.held device hdevice).x25519 publicKey hkey
    refine ⟨secret, hpublic, ?_⟩
    rw [run_getDevicePrivateKey hdevice hblob, decryptPrivateKey_encryptPrivateKey ideal]
  · intro encapsKey hpublished
    obtain ⟨device, hdevice, hkey⟩ := publishedKyberKey_eq_some.mp hpublished
    obtain ⟨pair, nonce, hpublic, hblob⟩ := (h.held device hdevice).kyber encapsKey hkey
    refine ⟨pair, hpublic, ?_⟩
    rw [run_getDeviceKyberPrivateKey hdevice hblob, Identity.openSecretBlob,
      Identity.sealSecretBlob, ideal.gcmOpen_gcmSeal]

end Read

/-! ## One operation -/

section Steps

variable {keys : UnlockedVaultKeys P} {w w' : VaultWorld P}

/-- A key pair that is there is left alone; otherwise one is drawn, sealed and stored. -/
theorem ensureDeviceKeypair_ok {masterKey : P.Key} {publicKey : Sized P.Key}
    (h : (Identity.ensureDeviceKeypair masterKey).run w = (.ok publicKey, w')) :
    w' = w ∨ ∃ device, w.db.localDeviceIdentity = some device ∧ w'.inner = w.inner ∧
      w.draws ≤ w'.draws ∧ w'.db.localDeviceIdentity = some
        { device with
          encryptedPrivateKey := some (Identity.encryptPrivateKey
            (Identity.deriveIdentityKek masterKey) (w.draws + 1) (P.randomKey w.draws))
          publicKey := some (.exact (P.x25519Public (P.randomKey w.draws))) } := by
  cases hdevice : w.db.localDeviceIdentity with
  | none => simp [Identity.ensureDeviceKeypair, Identity.localDevice, hdevice] at h
  | some device =>
    simp only [Identity.ensureDeviceKeypair, Identity.localDevice, Prog.bind_assoc,
      Prog.run_query_bind, hdevice, Prog.ofOption_some, Prog.ret_bind] at h
    split at h
    · left
      cases h
      rfl
    · right
      cases h
      refine ⟨device, rfl, rfl, Nat.le_add_right w.draws 2, ?_⟩
      change w.db.localDeviceIdentity.map _ = _
      rw [hdevice]
      rfl

/-- An encapsulation key of the right length is left alone; otherwise a pair is drawn, sealed and
stored. -/
theorem ensureDeviceKyberKeypair_ok {masterKey : P.Key} {encapsKey : Bytes}
    (h : (Identity.ensureDeviceKyberKeypair masterKey).run w = (.ok encapsKey, w')) :
    w' = w ∨ ∃ device, w.db.localDeviceIdentity = some device ∧ w'.inner = w.inner ∧
      w.draws ≤ w'.draws ∧ w'.db.localDeviceIdentity = some
        { device with
          encryptedKyberPrivateKey := some (Identity.sealSecretBlob
            (Identity.deriveIdentityKek masterKey) (w.draws + 1) (P.mlKem768 w.draws).2)
          kyberPublicKey := some (P.mlKem768 w.draws).1 } := by
  cases hdevice : w.db.localDeviceIdentity with
  | none => simp [Identity.ensureDeviceKyberKeypair, Identity.localDevice, hdevice] at h
  | some device =>
    have hgenerate : (Identity.ensureDeviceKyberKeypair.generate masterKey device).run w =
        (.ok encapsKey, w') → w'.inner = w.inner ∧ w.draws ≤ w'.draws ∧
        w'.db.localDeviceIdentity = some
          { device with
            encryptedKyberPrivateKey := some (Identity.sealSecretBlob
              (Identity.deriveIdentityKek masterKey) (w.draws + 1) (P.mlKem768 w.draws).2)
            kyberPublicKey := some (P.mlKem768 w.draws).1 } := by
      intro hrun
      cases hrun
      refine ⟨rfl, Nat.le_add_right w.draws 2, ?_⟩
      change w.db.localDeviceIdentity.map _ = _
      rw [hdevice]
      rfl
    simp only [Identity.ensureDeviceKyberKeypair, Identity.localDevice, Prog.bind_assoc,
      Prog.run_query_bind, hdevice, Prog.ofOption_some, Prog.ret_bind] at h
    split at h
    · split at h
      · left
        cases h
        rfl
      · exact .inr ⟨device, rfl, hgenerate h⟩
    · exact .inr ⟨device, rfl, hgenerate h⟩

/-- The row of this device with its X25519 key sealed again. -/
def resealed (oldMaster newMaster : P.Key) (nonce : ℕ) (device : LocalDeviceIdentityRecord P) :
    LocalDeviceIdentityRecord P :=
  { device with
    encryptedPrivateKey := device.encryptedPrivateKey.bind fun blob =>
      (Identity.resealLocalDevicePrivateKey oldMaster newMaster nonce blob).toOption }

/-- The migration writes the row with the key that the resealing returned. -/
theorem resealDeviceKey_ok {oldMaster newMaster : P.Key}
    {device : Option (LocalDeviceIdentityRecord P)} {blob : Option P.Sealed}
    (h : (resealDeviceKey oldMaster newMaster device).run w = (.ok blob, w'))
    {writes : Db.KdfMigrationWrites P} (hwrites : writes.newEncryptedDevicePrivateKey = blob)
    {db : VaultDb P} (hdb : db.localDeviceIdentity = device) :
    (Db.applyKdfMigration writes db).localDeviceIdentity =
      device.map (resealed oldMaster newMaster w.draws) := by
  unfold Db.applyKdfMigration
  rw [hwrites, hdb]
  cases device with
  | none =>
    cases h
    rfl
  | some d =>
    unfold resealDeviceKey at h
    rw [Option.bind_some] at h
    cases hstored : d.encryptedPrivateKey with
    | none =>
      rw [hstored] at h
      cases h
      simp only [Option.map_some, resealed, hstored, Option.bind_none, Option.some.injEq]
      rw [← hstored]
    | some old =>
      rw [hstored] at h
      simp only [run_draw_bind, id_eq] at h
      cases hreseal : Identity.resealLocalDevicePrivateKey oldMaster newMaster w.draws old with
      | error e =>
        rw [hreseal] at h
        cases h
      | ok new =>
        rw [hreseal] at h
        cases h
        simp only [Option.map_some, resealed, hstored, Option.bind_some, hreseal]
        rfl

/-- Resealing writes nothing. -/
theorem resealDeviceKey_world (oldMaster newMaster : P.Key)
    (device : Option (LocalDeviceIdentityRecord P)) (w : VaultWorld P) :
    ((resealDeviceKey oldMaster newMaster device).run w).2.db = w.db ∧
      w.draws ≤ ((resealDeviceKey oldMaster newMaster device).run w).2.draws := by
  unfold resealDeviceKey
  split
  · simp only [run_draw_bind]
    split <;> exact ⟨rfl, Nat.le_add_right w.draws 1⟩
  · exact ⟨rfl, le_rfl⟩

/-- What a migration has prepared: a master key from a new salt, and the X25519 key sealed again. -/
theorem prepareMigration_ok {passphrase : String} {oldMaster envelopeKey oldVaultKey : P.Key}
    {r : PreparedMigration P}
    (h : (prepareMigration passphrase oldMaster envelopeKey oldVaultKey).run w = (.ok r, w')) :
    ∃ nonce, w'.db = w.db ∧ w.draws < w'.draws ∧
      P.argon2 passphrase (targetKdfParams (P.randomSalt w.draws)) = some r.newRoot.masterKey ∧
      (Db.applyKdfMigration r.writes w.db).localDeviceIdentity =
        w.db.localDeviceIdentity.map (resealed oldMaster r.newRoot.masterKey nonce) := by
  cases hv : w.db.vaultState with
  | none => simp [prepareMigration, Db.getVaultParams, hv] at h
  | some v =>
    cases hroot : deriveRootKeys P passphrase (targetKdfParams (P.randomSalt w.draws)) with
    | none => simp [prepareMigration, Db.getVaultParams, hv, randomSalt, hroot] at h
    | some root =>
      simp only [prepareMigration, Db.getVaultParams, run_selectDb_bind, hv, Prog.ofOption_some,
        Prog.ret_bind, randomSalt, run_draw_bind, hroot, sealLegacyReadKey, encryptSecret,
        Prog.bind_assoc, Prog.pure_eq_ret, id_eq, Db.getLocalDeviceIdentity] at h
      obtain ⟨blob, w₁, hreseal, hret⟩ := Prog.run_bind_ok h
      cases hret
      obtain ⟨master, hmaster, heq⟩ := deriveRootKeys_eq_some.mp hroot
      obtain ⟨hdb, hdraws⟩ := resealDeviceKey_world oldMaster root.masterKey
        w.db.localDeviceIdentity { w with draws := w.draws + 2 }
      rw [hreseal] at hdb hdraws
      refine ⟨w.draws + 2, hdb, ?_, ?_, ?_⟩
      · have hlt : w.draws < w.draws + 2 := by omega
        exact hlt.trans_le hdraws
      · rw [hmaster, heq]
      · exact resealDeviceKey_ok hreseal rfl rfl

/-- A migration that returns has nothing to do, or it replaces the master key by one from a new
salt and seals the X25519 key again. -/
theorem migrate_ok {passphrase : String} {outcome : MigrationOutcome}
    (h : (migrateKdfParamsIfNeeded passphrase).run w = (.ok outcome, w')) :
    (¬ Migrates w ∧ w' = w) ∨ (Migrates w ∧ ∃ keys newKeys nonce, w.inner = some keys ∧
      w'.inner = some newKeys ∧ w.draws < w'.draws ∧
      P.argon2 passphrase (targetKdfParams (P.randomSalt w.draws)) = some newKeys.masterKey ∧
      w'.db.localDeviceIdentity =
        w.db.localDeviceIdentity.map (resealed keys.masterKey newKeys.masterKey nonce)) := by
  cases hcfg : w.db.vaultConfig with
  | none => simp [migrateKdfParamsIfNeeded, Db.getVaultConfig, hcfg] at h
  | some cfg =>
    by_cases hidle : needsKdfMigration cfg.parameterSetVersion = false ∨
        1 < (w.db.devices.filter (·.revokedAt.isNone)).length
    · left
      obtain ⟨outcome', hrun⟩ := run_migrate_idle passphrase hcfg hidle
      rw [hrun] at h
      cases h
      refine ⟨?_, rfl⟩
      rintro ⟨cfg', hcfg', hneeds, hdevices⟩
      rw [hcfg, Option.some.injEq] at hcfg'
      rw [← hcfg'] at hneeds
      rcases hidle with hcurrent | hsecond
      · rw [hneeds] at hcurrent
        cases hcurrent
      · omega
    · right
      rw [not_or, Bool.not_eq_false, not_lt] at hidle
      refine ⟨⟨cfg, hcfg, hidle.1, hidle.2⟩, ?_⟩
      obtain ⟨keys, evk, hinner, henv, ready⟩ := ready_of_migrate_ok hcfg hidle.1 hidle.2 h
      rw [run_migrate_start hcfg hidle.1 (not_lt.mpr hidle.2) hinner henv] at h
      obtain ⟨r, w₁, hprepare, hcommit⟩ := Prog.run_bind_ok h
      obtain ⟨nonce, hdb, hdraws, hmaster, hdevice⟩ := prepareMigration_ok hprepare
      cases hcommit
      refine ⟨keys, _, nonce, hinner, rfl, hdraws, hmaster, ?_⟩
      change (Db.applyKdfMigration r.writes w₁.db).localDeviceIdentity = _
      rw [hdb]
      exact hdevice

/-- A rotation that returns replaces the master key by one from a new salt, and leaves the row of
this device. -/
theorem rotateVaultKey_ok {newPassphrase : String} {result : RotationResult}
    (h : (rotateVaultKey newPassphrase).run w = (.ok result, w')) :
    ∃ newKeys, ∃ params : RootKdfParams, w'.inner = some newKeys ∧ w.draws < w'.draws ∧
      P.argon2 newPassphrase { params with salt := P.randomSalt w.draws } =
        some newKeys.masterKey ∧
      w'.db.localDeviceIdentity = w.db.localDeviceIdentity := by
  obtain ⟨evk, henv, ready⟩ := ready_of_rotateVaultKey_ok h
  obtain ⟨r, result', hr, hrun⟩ := run_rotateVaultKey henv ready
  rw [hrun] at h
  cases h
  obtain ⟨master, hmaster, hroot⟩ := deriveRootKeys_eq_some.mp hr.rootKeys
  refine ⟨r.keys, r.newParams, rfl, ?_, ?_, ?_⟩
  · have hlt : w.draws < w.draws + 2 := by omega
    exact hlt
  · rw [← hr.salt, hmaster, PreparedRotation.keys, hroot]
    rfl
  · exact (PreparedRotation.localDeviceIdentity_storeRows _ _ _).trans rfl

/-- The same master key comes from no other salt. -/
theorem fresh_of_argon2 (ideal : P.Ideal) {d : ℕ} {passphrase : String} {params : RootKdfParams}
    {master : P.Key} (hlt : w.draws < d)
    (hmaster : P.argon2 passphrase { params with salt := P.randomSalt w.draws } = some master) :
    ∀ n passphrase' (params' : RootKdfParams), d ≤ n →
      P.argon2 passphrase' { params' with salt := P.randomSalt n } ≠ some master := by
  intro n passphrase' params' hn heq
  have hparams := (ideal.argon2_inj hmaster heq).2
  have hsalt : P.randomSalt w.draws = P.randomSalt n := congrArg RootKdfParams.salt hparams
  have hsame := ideal.randomSalt_inj hsalt
  omega

/-- Generating a key pair keeps the secrets. -/
theorem SecretsHeldWith.ensureDeviceKeypair {publicKey : Sized P.Key}
    (h : SecretsHeldWith keys w)
    (hrun : (Identity.ensureDeviceKeypair keys.masterKey).run w = (.ok publicKey, w')) :
    SecretsHeldWith keys w' := by
  obtain rfl | ⟨device, hdevice, hinner, hdraws, hdevice'⟩ := ensureDeviceKeypair_ok hrun
  · exact h
  · constructor
    · exact hinner.trans h.unlocked
    · intro row hrow
      rw [hdevice', Option.some.injEq] at hrow
      rw [← hrow]
      constructor
      · intro key hkey
        cases hkey
        exact ⟨_, _, rfl, rfl⟩
      · exact (h.held device hdevice).kyber
    · intro n passphrase params hn
      exact h.freshMaster n passphrase params (hdraws.trans hn)

theorem SecretsHeldWith.ensureDeviceKyberKeypair {encapsKey : Bytes}
    (h : SecretsHeldWith keys w)
    (hrun : (Identity.ensureDeviceKyberKeypair keys.masterKey).run w = (.ok encapsKey, w')) :
    SecretsHeldWith keys w' := by
  obtain rfl | ⟨device, hdevice, hinner, hdraws, hdevice'⟩ := ensureDeviceKyberKeypair_ok hrun
  · exact h
  · constructor
    · exact hinner.trans h.unlocked
    · intro row hrow
      rw [hdevice', Option.some.injEq] at hrow
      rw [← hrow]
      constructor
      · exact (h.held device hdevice).x25519
      · intro key hkey
        cases hkey
        exact ⟨_, _, rfl, rfl⟩
    · intro n passphrase params hn
      exact h.freshMaster n passphrase params (hdraws.trans hn)

/-- A migration keeps the secrets while there is no encapsulation key. -/
theorem SecretsHeldWith.migrate (ideal : P.Ideal) {passphrase : String}
    {outcome : MigrationOutcome} (h : SecretsHeldWith keys w)
    (hrun : (migrateKdfParamsIfNeeded passphrase).run w = (.ok outcome, w'))
    (hkyber : Migrates w → publishedKyberKey w = none) : SecretsHeld w' := by
  obtain ⟨-, rfl⟩ | ⟨hmigrates, old, newKeys, nonce, hinner, hinner', hdraws, hmaster, hdevice⟩ :=
    migrate_ok hrun
  · exact ⟨keys, h⟩
  rw [h.unlocked, Option.some.injEq] at hinner
  rw [← hinner] at hdevice
  have hderived : P.argon2 passphrase
      { targetKdfParams (P.randomSalt w.draws) with salt := P.randomSalt w.draws } =
        some newKeys.masterKey := hmaster
  refine ⟨newKeys, hinner', ?_, fresh_of_argon2 ideal hdraws hderived⟩
  intro row hrow
  rw [hdevice, Option.map_eq_some_iff] at hrow
  obtain ⟨device, hlocal, rfl⟩ := hrow
  have hheld := h.held device hlocal
  constructor
  · intro publicKey hpublic
    obtain ⟨secret, sealNonce, hpair, hblob⟩ := hheld.x25519 publicKey hpublic
    refine ⟨secret, nonce, hpair, ?_⟩
    simp only [resealed, hblob, Option.bind_some, Identity.resealLocalDevicePrivateKey,
      decryptPrivateKey_encryptPrivateKey ideal]
    rfl
  · intro encapsKey hencaps
    have hnone := hkyber hmigrates
    rw [publishedKyberKey, hlocal, Option.bind_some] at hnone
    have hsome : device.kyberPublicKey = some encapsKey := hencaps
    rw [hnone] at hsome
    cases hsome

/-- A migration of a device with an encapsulation key loses the decapsulation key. -/
theorem SecretsHeldWith.not_survive_migrate (ideal : P.Ideal) {passphrase : String}
    {outcome : MigrationOutcome} (h : SecretsHeldWith keys w)
    (hrun : (migrateKdfParamsIfNeeded passphrase).run w = (.ok outcome, w'))
    (hmigrates : Migrates w) (hkyber : publishedKyberKey w ≠ none) : ¬ SecretsSurvive w' := by
  obtain ⟨hidle, -⟩ | ⟨-, old, newKeys, nonce, hinner, hinner', hdraws, hmaster, hdevice⟩ :=
    migrate_ok hrun
  · exact absurd hmigrates hidle
  obtain ⟨encapsKey, hpublished⟩ := Option.ne_none_iff_exists'.mp hkyber
  obtain ⟨device, hlocal, hencaps⟩ := publishedKyberKey_eq_some.mp hpublished
  obtain ⟨pair, sealNonce, hpair, hblob⟩ := (h.held device hlocal).kyber encapsKey hencaps
  have hne : newKeys.masterKey ≠ keys.masterKey := by
    intro heq
    rw [heq] at hmaster
    exact h.freshMaster w.draws passphrase (targetKdfParams (P.randomSalt w.draws)) le_rfl hmaster
  rw [hlocal, Option.map_some] at hdevice
  intro hsurvive
  obtain ⟨pair', -, hread⟩ := (hsurvive newKeys hinner').2 encapsKey
    (publishedKyberKey_eq_some.mpr ⟨_, hdevice, hencaps⟩)
  rw [run_getDeviceKyberPrivateKey hdevice hblob, Identity.openSecretBlob,
    Identity.sealSecretBlob, gcmOpen_otherMaster ideal hne] at hread
  cases hread

/-- A rotation keeps the secrets while there is no public key. -/
theorem SecretsHeldWith.rotate (ideal : P.Ideal) {newPassphrase : String}
    {result : RotationResult} (hrun : (rotateVaultKey newPassphrase).run w = (.ok result, w'))
    (hnone : publishedKey w = none ∧ publishedKyberKey w = none) : SecretsHeld w' := by
  obtain ⟨newKeys, params, hinner', hdraws, hmaster, hdevice⟩ := rotateVaultKey_ok hrun
  refine ⟨newKeys, hinner', ?_, fresh_of_argon2 ideal hdraws hmaster⟩
  intro device hlocal
  rw [hdevice] at hlocal
  constructor
  · intro publicKey hpublic
    have hsome := publishedKey_eq_some.mpr ⟨device, hlocal, hpublic⟩
    rw [hnone.1] at hsome
    cases hsome
  · intro encapsKey hencaps
    have hsome := publishedKyberKey_eq_some.mpr ⟨device, hlocal, hencaps⟩
    rw [hnone.2] at hsome
    cases hsome

/-- A rotation of a device with a public key loses its private half. -/
theorem SecretsHeldWith.not_survive_rotate (ideal : P.Ideal) {newPassphrase : String}
    {result : RotationResult} (h : SecretsHeldWith keys w)
    (hrun : (rotateVaultKey newPassphrase).run w = (.ok result, w'))
    (hsome : ¬ (publishedKey w = none ∧ publishedKyberKey w = none)) : ¬ SecretsSurvive w' := by
  obtain ⟨newKeys, params, hinner', hdraws, hmaster, hdevice⟩ := rotateVaultKey_ok hrun
  have hne : newKeys.masterKey ≠ keys.masterKey := by
    intro heq
    rw [heq] at hmaster
    exact h.freshMaster w.draws newPassphrase params le_rfl hmaster
  intro hsurvive
  apply hsome
  constructor
  · by_contra hkey
    obtain ⟨publicKey, hpublished⟩ := Option.ne_none_iff_exists'.mp hkey
    obtain ⟨device, hlocal, hpublic⟩ := publishedKey_eq_some.mp hpublished
    obtain ⟨secret, sealNonce, hpair, hblob⟩ := (h.held device hlocal).x25519 publicKey hpublic
    rw [hlocal] at hdevice
    obtain ⟨secret', -, hread⟩ := (hsurvive newKeys hinner').1 publicKey
      (publishedKey_eq_some.mpr ⟨device, hdevice, hpublic⟩)
    rw [run_getDevicePrivateKey hdevice hblob, Identity.decryptPrivateKey,
      Identity.encryptPrivateKey, gcmOpen_otherMaster ideal hne] at hread
    cases hread
  · by_contra hkey
    obtain ⟨encapsKey, hpublished⟩ := Option.ne_none_iff_exists'.mp hkey
    obtain ⟨device, hlocal, hencaps⟩ := publishedKyberKey_eq_some.mp hpublished
    obtain ⟨pair, sealNonce, hpair, hblob⟩ := (h.held device hlocal).kyber encapsKey hencaps
    rw [hlocal] at hdevice
    obtain ⟨pair', -, hread⟩ := (hsurvive newKeys hinner').2 encapsKey
      (publishedKyberKey_eq_some.mpr ⟨device, hdevice, hencaps⟩)
    rw [run_getDeviceKyberPrivateKey hdevice hblob, Identity.openSecretBlob,
      Identity.sealSecretBlob, gcmOpen_otherMaster ideal hne] at hread
    cases hread

end Steps

/-! ## Runs of all operations -/

namespace DeviceOp

variable {w : VaultWorld P}

/-- An operation that returns had run to its end. -/
theorem ofRun_eq_true {ε α : Type} {r : Except ε α × VaultWorld P} (h : (outcome.ofRun r).1 = true) :
    ∃ a, r = (.ok a, r.2) := by
  obtain ⟨result, world⟩ := r
  cases result with
  | error e => cases h
  | ok a => exact ⟨a, rfl⟩

theorem withMaster_eq {keys : UnlockedVaultKeys P} (hinner : w.inner = some keys) {α : Type}
    (p : P.Key → Identity.IdentityProg P α) :
    outcome.withMaster w p = outcome.ofRun ((p keys.masterKey).run w) := by
  rw [outcome.withMaster, hinner]

/-- An operation that returns and meets its condition keeps the secrets. -/
theorem secretsHeld_step (ideal : P.Ideal) (op : DeviceOp) (h : SecretsHeld w)
    (hok : op.ReturnsOk w) (hkeeps : op.KeepsSecrets w) : SecretsHeld (op.step w) := by
  obtain ⟨keys, h⟩ := h
  unfold ReturnsOk at hok
  unfold step
  cases op with
  | ensureDeviceKeypair =>
    simp only [outcome, withMaster_eq h.unlocked] at hok ⊢
    obtain ⟨publicKey, hrun⟩ := ofRun_eq_true hok
    exact ⟨keys, h.ensureDeviceKeypair hrun⟩
  | ensureDeviceKyberKeypair =>
    simp only [outcome, withMaster_eq h.unlocked] at hok ⊢
    obtain ⟨encapsKey, hrun⟩ := ofRun_eq_true hok
    exact ⟨keys, h.ensureDeviceKyberKeypair hrun⟩
  | migrateKdfParamsIfNeeded passphrase =>
    obtain ⟨result, hrun⟩ := ofRun_eq_true hok
    exact h.migrate ideal hrun hkeeps
  | rotateVaultKey newPassphrase =>
    obtain ⟨result, hrun⟩ := ofRun_eq_true hok
    exact SecretsHeldWith.rotate ideal hrun hkeeps

/-- An operation that returns and does not meet its condition loses a secret. -/
theorem not_survive_step (ideal : P.Ideal) (op : DeviceOp) (h : SecretsHeld w)
    (hok : op.ReturnsOk w) (hbreaks : ¬ op.KeepsSecrets w) : ¬ SecretsSurvive (op.step w) := by
  obtain ⟨keys, h⟩ := h
  unfold ReturnsOk at hok
  unfold step
  cases op with
  | ensureDeviceKeypair => exact absurd trivial hbreaks
  | ensureDeviceKyberKeypair => exact absurd trivial hbreaks
  | migrateKdfParamsIfNeeded passphrase =>
    obtain ⟨result, hrun⟩ := ofRun_eq_true hok
    rw [KeepsSecrets, Classical.not_imp] at hbreaks
    exact h.not_survive_migrate ideal hrun hbreaks.1 hbreaks.2
  | rotateVaultKey newPassphrase =>
    obtain ⟨result, hrun⟩ := ofRun_eq_true hok
    exact h.not_survive_rotate ideal hrun hbreaks

end DeviceOp

/-- Over a run of operations that all return, the secrets of this device survive exactly when no
rotation finds a public key of the device, and no migration with something to do an encapsulation
key. -/
theorem secrets_survive_iff (ideal : P.Ideal) {ops : List DeviceOp} {w : VaultWorld P}
    (hw : SecretsHeld w) (hok : guarded DeviceOp.step DeviceOp.ReturnsOk ops w) :
    (∀ t ∈ states DeviceOp.step ops w, SecretsSurvive t) ↔
      guarded DeviceOp.step DeviceOp.KeepsSecrets ops w := by
  apply good_iff_guarded DeviceOp.step DeviceOp.ReturnsOk DeviceOp.KeepsSecrets SecretsHeld
    SecretsSurvive _ _ _ hw hok
  · intro t ht
    obtain ⟨keys, ht⟩ := ht
    exact ht.survive ideal
  · intro op t ht hop hkeeps
    exact op.secretsHeld_step ideal ht hop hkeeps
  · intro op t ht hop hbreaks
    exact op.not_survive_step ideal ht hop hbreaks

/-! ## A vault with old parameters on one device -/

/-- An unlocked V1 vault on a device that has no keys yet. -/
def oldParamsVault : VaultWorld symbolic :=
  { db :=
      { vaultState := some v1Record
        vaultConfig := some v1Params.toRecord
        localDeviceIdentity := some { deviceId := "laptop" }
        devices := [{ deviceId := "laptop", userId := "alice", publicKey := .other [] }] }
    inner := some (.withEnvelopeKey v1Root.masterKey v1Root.vaultKey (SymbolicKey.random 0))
    draws := 2 }

theorem oldParamsVault_secretsHeld : SecretsHeld oldParamsVault := by
  refine ⟨.withEnvelopeKey v1Root.masterKey v1Root.vaultKey (SymbolicKey.random 0), rfl, ?_, ?_⟩
  · intro device hdevice
    cases hdevice
    constructor
    · intro publicKey hpublic
      cases hpublic
    · intro encapsKey hencaps
      cases hencaps
  · intro n passphrase params hn heq
    have hlength : n = 1 := by
      have hkey := Option.some.inj heq
      injection hkey with hpass hparams
      have hsalt : List.replicate n (0 : UInt8) = [1] := congrArg RootKdfParams.salt hparams
      have hlength := congrArg List.length hsalt
      rw [List.length_replicate] at hlength
      exact hlength
    have hdrawn : 2 ≤ n := hn
    omega

/-- The secrets survive when the migration comes before the ML-KEM pair. -/
theorem secrets_survive_oldParamsVault : SecretsHeld oldParamsVault ∧
    ∀ t ∈ states DeviceOp.step
      [.ensureDeviceKeypair, .migrateKdfParamsIfNeeded "correct horse", .ensureDeviceKyberKeypair]
      oldParamsVault, SecretsSurvive t := by
  have hok : guarded DeviceOp.step DeviceOp.ReturnsOk
      [.ensureDeviceKeypair, .migrateKdfParamsIfNeeded "correct horse", .ensureDeviceKyberKeypair]
      oldParamsVault := ⟨rfl, rfl, rfl, trivial⟩
  refine ⟨oldParamsVault_secretsHeld, ?_⟩
  apply (secrets_survive_iff symbolic_ideal oldParamsVault_secretsHeld hok).mpr
  exact ⟨trivial, fun _ => rfl, trivial, trivial⟩

/-- A migration behind the ML-KEM pair loses its private half, on a vault with one device. -/
theorem kyber_lost_in_migration :
    ¬ ∀ (ops : List DeviceOp) (w : VaultWorld symbolic), SecretsHeld w →
      (w.db.devices.filter (·.revokedAt.isNone)).length = 1 →
      guarded DeviceOp.step DeviceOp.ReturnsOk ops w →
      ∀ t ∈ states DeviceOp.step ops w, SecretsSurvive t := by
  intro hall
  have hok : guarded DeviceOp.step DeviceOp.ReturnsOk
      [.ensureDeviceKeypair, .ensureDeviceKyberKeypair, .migrateKdfParamsIfNeeded "correct horse"]
      oldParamsVault := ⟨rfl, rfl, rfl, trivial⟩
  have hsurvive := hall _ oldParamsVault oldParamsVault_secretsHeld rfl hok _ (mem_states_last _ _ _)
  obtain ⟨pair, -, hread⟩ := (hsurvive _ rfl).2 _ rfl
  cases hread

end VaultKeyStore

end OmniDrive
