import OmniDrive.Vault.KeyStore

/-!
# What an unlock does

The runs of the single statements and of the accessors of the key slot, and the outcome and the
final state of an unlock for each kind of vault it meets. Later results about runs cite these
and never unfold the operation again.
-/

namespace OmniDrive

open StatementProgram Tables

variable {P : Primitives}

/-! ## Statements -/

section Statements

variable {α β : Type} (w : VaultWorld P)

@[simp] theorem run_draw_bind (tape : ℕ → α) (k : α → VaultProg P β) :
    (draw tape >>= k).run w = (k (tape w.draws)).run { w with draws := w.draws + 1 } := rfl

@[simp] theorem run_readSlot_bind (k : Option (UnlockedVaultKeys P) → VaultProg P β) :
    (readSlot >>= k).run w = (k w.inner).run w := rfl

@[simp] theorem run_writeSlot_bind (keys : Option (UnlockedVaultKeys P))
    (k : Unit → VaultProg P β) :
    (writeSlot keys >>= k).run w = (k ()).run { w with inner := keys } := rfl

@[simp] theorem run_writeSlot (keys : Option (UnlockedVaultKeys P)) :
    (writeSlot keys).run w = (.ok (), { w with inner := keys }) := rfl

@[simp] theorem liftCrypto_ok (a : α) : (liftCrypto (.ok a) : VaultProg P α) = .ret a := rfl

@[simp] theorem liftCrypto_error (e : CryptoError) :
    (liftCrypto (.error e) : VaultProg P α) = .fail (.crypto e) := rfl

end Statements

/-! ## KDF parameters -/

/-- The four numbers fit the width they are stored in. -/
def RootKdfParams.Fits (params : RootKdfParams) : Prop :=
  params.parameterSetVersion < 2 ^ 32 ∧ params.memoryCostKib < 2 ^ 32 ∧
    params.timeCost < 2 ^ 32 ∧ params.lanes < 2 ^ 32

instance (params : RootKdfParams) : Decidable params.Fits :=
  inferInstanceAs (Decidable (_ ∧ _ ∧ _ ∧ _))

/-- The parameters of new vaults fit. -/
theorem targetKdfParams_fits (salt : Bytes) : (targetKdfParams salt).Fits := by
  simp [RootKdfParams.Fits, targetKdfParams, targetParameterSetVersion, targetMemoryCostKib,
    targetTimeCost, targetLanes]

theorem u32TryFrom_eq_ok {field : String} {value : ℤ} {n : ℕ} :
    u32TryFrom field value = .ok n ↔ value = n ∧ n < 2 ^ 32 := by
  unfold u32TryFrom
  split
  · rw [Except.ok.injEq]
    omega
  · simp only [reduceCtorEq, false_iff]
    omega

/-- A KDF row converts exactly to the parameters it stores. -/
theorem toRootKdfParams_eq_ok {config : VaultConfigRecord} {params : RootKdfParams} :
    toRootKdfParams config = .ok params ↔ config = params.toRecord ∧ params.Fits := by
  constructor
  · intro h
    obtain ⟨salt, version, memory, time, lanes⟩ := config
    unfold toRootKdfParams at h
    rcases hversion : u32TryFrom "parameter_set_version" version with e | version'
    · simp [hversion, Bind.bind, Except.bind] at h
    rcases hmemory : u32TryFrom "memory_cost_kib" memory with e | memory'
    · simp [hversion, hmemory, Bind.bind, Except.bind] at h
    rcases htime : u32TryFrom "time_cost" time with e | time'
    · simp [hversion, hmemory, htime, Bind.bind, Except.bind] at h
    rcases hlanes : u32TryFrom "lanes" lanes with e | lanes'
    · simp [hversion, hmemory, htime, hlanes, Bind.bind, Except.bind] at h
    simp [hversion, hmemory, htime, hlanes, Bind.bind, Except.bind, Pure.pure, Except.pure] at h
    subst h
    rw [u32TryFrom_eq_ok] at hversion hmemory htime hlanes
    refine ⟨?_, hversion.2, hmemory.2, htime.2, hlanes.2⟩
    rw [hversion.1, hmemory.1, htime.1, hlanes.1]
    rfl
  · rintro ⟨rfl, hversion, hmemory, htime, hlanes⟩
    have hok : ∀ (field : String) (n : ℕ), n < 2 ^ 32 → u32TryFrom field (n : ℤ) = .ok n :=
      fun field n hn => u32TryFrom_eq_ok.mpr ⟨rfl, hn⟩
    simp only [toRootKdfParams, RootKdfParams.toRecord, hok _ _ hversion, hok _ _ hmemory,
      hok _ _ htime, hok _ _ hlanes]
    rfl

/-- The salt of a KDF row passes through the conversion of its numbers. -/
theorem toRootKdfParams_salt (config : VaultConfigRecord) (salt : Bytes) :
    toRootKdfParams { config with salt } =
      (toRootKdfParams config).map fun params => { params with salt } := by
  unfold toRootKdfParams
  rcases u32TryFrom "parameter_set_version" config.parameterSetVersion with e | version
  · rfl
  rcases u32TryFrom "memory_cost_kib" config.memoryCostKib with e | memory
  · rfl
  rcases u32TryFrom "time_cost" config.timeCost with e | time
  · rfl
  rcases u32TryFrom "lanes" config.lanes with e | lanes
  · rfl
  rfl

/-- Converted parameters convert again from the row they are stored in. -/
theorem toRootKdfParams_toRecord {config : VaultConfigRecord} {params : RootKdfParams}
    (h : toRootKdfParams config = .ok params) : toRootKdfParams params.toRecord = .ok params :=
  toRootKdfParams_eq_ok.mpr ⟨rfl, (toRootKdfParams_eq_ok.mp h).2⟩

namespace VaultKeyStore

/-! ## Lock and the accessors of the key slot -/

@[simp] theorem run_lock (w : VaultWorld P) : lock.run w = (.ok (), { w with inner := none }) := rfl

/-- The vault key is refused exactly while the slot is empty. -/
theorem run_requireKey (w : VaultWorld P) : requireKey.run w =
    (match w.inner with | some keys => .ok keys.vaultKey | none => .error .locked, w) := by
  cases h : w.inner <;> simp [requireKey, h]

/-- The master key is refused exactly while the slot is empty. -/
theorem run_requireMasterKey (w : VaultWorld P) : requireMasterKey.run w =
    (match w.inner with | some keys => .ok keys.masterKey | none => .error .locked, w) := by
  cases h : w.inner <;> simp [requireMasterKey, h]

/-- The envelope key is refused while the slot holds none. -/
theorem run_requireEnvelopeKey (w : VaultWorld P) : requireEnvelopeKey.run w =
    (match w.inner.bind (·.envelopeVaultKey) with
      | some key => .ok key
      | none => .error .locked, w) := by
  rcases h : w.inner.bind (·.envelopeVaultKey) with _ | key <;> simp [requireEnvelopeKey, h]

section Frame

variable {γ : Type} {f : VaultWorld P → γ}

/-- A key that is required is only read. -/
theorem fixes_requireKey : (requireKey (P := P)).Fixes f :=
  (Prog.Fixes.query _).bind fun _ => Prog.Fixes.ofOption _ _

theorem fixes_requireMasterKey : (requireMasterKey (P := P)).Fixes f :=
  (Prog.Fixes.query _).bind fun _ => Prog.Fixes.ofOption _ _

theorem fixes_requireEnvelopeKey : (requireEnvelopeKey (P := P)).Fixes f :=
  (Prog.Fixes.query _).bind fun _ => Prog.Fixes.ofOption _ _

end Frame

/-! ## Unlocking -/

/-- `w'` is `w` with other rows of `users` and a later position on the tape. -/
def SameVault (w w' : VaultWorld P) : Prop :=
  w'.inner = w.inner ∧ w.draws ≤ w'.draws ∧ ∃ users, w'.db = { w.db with users }

theorem SameVault.refl (w : VaultWorld P) : SameVault w w := ⟨rfl, Nat.le_refl _, w.db.users, rfl⟩

theorem SameVault.trans {w w' w'' : VaultWorld P} (h : SameVault w w') (h' : SameVault w' w'') :
    SameVault w w'' := by
  obtain ⟨hi, hd, users, hdb⟩ := h
  obtain ⟨hi', hd', users', hdb'⟩ := h'
  exact ⟨hi'.trans hi, hd.trans hd', users', by rw [hdb', hdb]⟩

/-- Sealing a token reads the envelope key and draws a nonce, nothing else. -/
theorem run_sealOauthToken (uid token : String) (w : VaultWorld P) :
    SameVault w ((sealOauthToken uid token).run w).2 := by
  rcases h : w.inner.bind (·.envelopeVaultKey) with _ | evk
  · simpa [sealOauthToken, requireEnvelopeKey, h] using SameVault.refl w
  · simp only [sealOauthToken, requireEnvelopeKey, encryptSecret, Prog.bind_assoc,
      run_readSlot_bind, h, Prog.ofOption_some, Prog.ret_bind, run_draw_bind, Prog.pure_eq_ret,
      Prog.run_ret]
    exact ⟨rfl, Nat.le_succ _, w.db.users, rfl⟩

/-- Sealing the plaintext tokens always returns, and touches the users only. -/
theorem run_sealPlaintextTokens (pairs : List (String × String)) (w : VaultWorld P) :
    ∃ w', (sealPlaintextTokens pairs).run w = (.ok (), w') ∧ SameVault w w' := by
  induction pairs generalizing w with
  | nil => exact ⟨w, rfl, SameVault.refl w⟩
  | cons pair rest ih =>
    obtain ⟨uid, token⟩ := pair
    have hseal := run_sealOauthToken uid token w
    have hattempt := Prog.run_attempt (γ := VaultError) (sealOauthToken uid token) w
    rcases hrun : (sealOauthToken uid token).run w with ⟨cipher | cipher, t⟩
    · rw [hrun] at hseal hattempt
      obtain ⟨w', hrest, hsame⟩ := ih t
      refine ⟨w', ?_, hseal.trans hsame⟩
      rw [sealPlaintextTokens, Prog.run_bind_of_ok hattempt]
      simpa using hrest
    · rw [hrun] at hseal hattempt
      obtain ⟨w', hrest, hsame⟩ := ih { t with db := { t.db with
        users := updateWhere (·.userId = uid) (fun u => { u with googleRefreshToken := none })
          (updateWhere (·.userId = uid)
            (fun u => { u with googleRefreshTokenCiphertext := some cipher }) t.db.users) } }
      refine ⟨w', ?_, hseal.trans (SameVault.trans ⟨rfl, Nat.le_refl _, _, rfl⟩ hsame)⟩
      rw [sealPlaintextTokens, Prog.run_bind_of_ok hattempt]
      simpa [Db.storeEncryptedRefreshToken, Db.clearPlaintextRefreshToken, Db.updateUser]
        using hrest

/-- The KDF row of the database turns the passphrase into these root keys. -/
def RootKeysFor (db : VaultDb P) (passphrase : String) (root : RootKeys P) : Prop :=
  ∃ config params, db.vaultConfig = some config ∧ toRootKdfParams config = .ok params ∧
    deriveRootKeys P passphrase params = some root

section Unlock

variable {w : VaultWorld P} {passphrase : String} {root : RootKeys P} {v : VaultRecord P}

/-- An unlock of an existing vault reaches the point where it chooses its keys. -/
theorem run_unlock_existing (hpass : passphrase ≠ "") (hroot : RootKeysFor w.db passphrase root)
    (hv : w.db.vaultState = some v) :
    (unlock passphrase).run w = (do
      let unlocked ← unlockKeys root (some v)
      writeSlot (some unlocked)
      let pairs ← Db.usersWithPlaintextRefreshToken
      sealPlaintextTokens pairs
      pure ({ initialized := false, unlocked := true } : UnlockResult)).run w := by
  obtain ⟨config, params, hconfig, hparams, hderive⟩ := hroot
  simp [unlock, hpass, ensureVaultConfig, Db.getVaultConfig, hconfig, hparams,
    ensureLocalVaultParams, Db.getVaultParams, hv, hderive]

/-- The end of an unlock: the keys are in the slot, and plaintext tokens are sealed. -/
theorem run_unlock_finish (keys : UnlockedVaultKeys P) (initialized : Bool) (w : VaultWorld P) :
    ∃ w', (do
      writeSlot (some keys)
      let pairs ← Db.usersWithPlaintextRefreshToken
      sealPlaintextTokens pairs
      pure ({ initialized, unlocked := true } : UnlockResult)).run w =
        (.ok { initialized, unlocked := true }, w') ∧
      SameVault { w with inner := some keys } w' := by
  obtain ⟨w', hrun, hsame⟩ := run_sealPlaintextTokens (Db.plaintextTokens w.db)
    { w with inner := some keys }
  refine ⟨w', ?_, hsame⟩
  simp only [run_writeSlot_bind, Db.usersWithPlaintextRefreshToken, run_selectDb_bind]
  rw [Prog.run_bind_of_ok hrun]
  rfl

/-- With the right passphrase, an unlock puts the stored envelope key into the slot and forgets
the previous one. -/
theorem run_unlock_stored {wrapped : P.Wrapped} {evk : P.Key} (hpass : passphrase ≠ "")
    (hroot : RootKeysFor w.db passphrase root) (hv : w.db.vaultState = some v)
    (hkey : v.encryptedVaultKey = some (.exact wrapped))
    (hunwrap : unwrapKey root.kek wrapped = .ok evk) :
    ∃ w', (unlock passphrase).run w = (.ok { initialized := false, unlocked := true }, w') ∧
      SameVault { w with inner := some (.withEnvelopeKey root.masterKey root.vaultKey evk) } w' := by
  rw [run_unlock_existing hpass hroot hv]
  simp only [unlockKeys, Option.bind_some, hkey, hunwrap, liftCrypto_ok, Prog.ret_bind,
    Prog.pure_eq_ret]
  exact run_unlock_finish _ _ w

/-- With a passphrase whose KEK does not open the stored key, an unlock fails and changes
nothing. -/
theorem run_unlock_refused {wrapped : P.Wrapped} {e : CryptoError} (hpass : passphrase ≠ "")
    (hroot : RootKeysFor w.db passphrase root) (hv : w.db.vaultState = some v)
    (hkey : v.encryptedVaultKey = some (.exact wrapped))
    (hunwrap : unwrapKey root.kek wrapped = .error e) :
    (unlock passphrase).run w = (.error (.crypto e), w) := by
  rw [run_unlock_existing hpass hroot hv]
  simp [unlockKeys, hkey, hunwrap]

/-- The row of `vault_state` after an envelope key has been stored for the first time. -/
def firstEnvelope (root : RootKeys P) (envelopeKey : P.Key) (v : VaultRecord P) : VaultRecord P :=
  { v with
    encryptedVaultKey := some (.exact (wrapKey root.kek envelopeKey))
    vaultKeyGeneration := some 1
    vaultFormatVersion := 2 }

/-- Without a stored envelope key, the keys of an unlock are made from a fresh one. -/
theorem run_unlockKeys_fresh (root : RootKeys P) (hv : w.db.vaultState = some v)
    (hkey : ∀ wrapped, v.encryptedVaultKey ≠ some (.exact wrapped)) :
    (unlockKeys root (some v)).run w =
      (.ok (.withEnvelopeKey root.masterKey root.vaultKey (P.randomKey w.draws)),
        { db := { w.db with vaultState := some (firstEnvelope root (P.randomKey w.draws) v) }
          inner := w.inner
          draws := w.draws + 1
          now := w.now }) := by
  unfold unlockKeys
  split
  · rename_i wrapped hsome
    exact absurd hsome (hkey wrapped)
  · simp [generateRandomKey, Db.storeEncryptedVaultKey, Db.updateVaultState, hv, firstEnvelope]

/-- A vault without a stored envelope key gets a fresh one at its unlock. -/
theorem run_unlock_upgrade (hpass : passphrase ≠ "") (hroot : RootKeysFor w.db passphrase root)
    (hv : w.db.vaultState = some v) (hkey : ∀ wrapped, v.encryptedVaultKey ≠ some (.exact wrapped)) :
    ∃ w', (unlock passphrase).run w = (.ok { initialized := false, unlocked := true }, w') ∧
      SameVault
        { db := { w.db with vaultState := some (firstEnvelope root (P.randomKey w.draws) v) }
          inner := some (.withEnvelopeKey root.masterKey root.vaultKey (P.randomKey w.draws))
          draws := w.draws + 1
          now := w.now } w' := by
  rw [run_unlock_existing hpass hroot hv,
    Prog.run_bind_of_ok (run_unlockKeys_fresh root hv hkey)]
  exact run_unlock_finish _ _ _

end Unlock

/-- The first unlock of an empty database creates the vault. -/
theorem run_unlock_fresh {w : VaultWorld P} {passphrase : String} {root : RootKeys P}
    (hpass : passphrase ≠ "") (hconfig : w.db.vaultConfig = none) (hv : w.db.vaultState = none)
    (hroot : deriveRootKeys P passphrase (targetKdfParams (P.randomSalt w.draws)) = some root) :
    ∃ v w', (unlock passphrase).run w = (.ok { initialized := true, unlocked := true }, w') ∧
      v.encryptedVaultKey = some (.exact (wrapKey root.kek (P.randomKey (w.draws + 2)))) ∧
      v.vaultKeyGeneration = some 1 ∧ v.legacyReadKey = none ∧
      SameVault
        { db := { w.db with
            vaultConfig := some (targetKdfParams (P.randomSalt w.draws)).toRecord
            vaultState := some v }
          inner := some (.withEnvelopeKey root.masterKey root.vaultKey
            (P.randomKey (w.draws + 2)))
          draws := w.draws + 3
          now := w.now } w' := by
  let created : VaultRecord P :=
    { masterKeySalt := P.randomSalt (w.draws + 1)
      argon2Params := (targetKdfParams (P.randomSalt w.draws)).toArgon2Params
      vaultId := "local-vault-" ++ hexPrefix (targetKdfParams (P.randomSalt w.draws)).salt
      encryptedVaultKey := some (.exact (wrapKey root.kek (P.randomKey (w.draws + 2))))
      vaultKeyGeneration := some 1
      vaultFormatVersion := 2 }
  obtain ⟨w', hrun, hsame⟩ := run_unlock_finish
    (.withEnvelopeKey root.masterKey root.vaultKey (P.randomKey (w.draws + 2))) true
    { db := { w.db with
        vaultConfig := some (targetKdfParams (P.randomSalt w.draws)).toRecord
        vaultState := some created }
      inner := w.inner
      draws := w.draws + 3
      now := w.now }
  refine ⟨created, w', ?_, rfl, rfl, rfl, hsame⟩
  rw [← hrun]
  simp [unlock, hpass, ensureVaultConfig, Db.getVaultConfig, hconfig, ensureLocalVaultParams,
    Db.getVaultParams, hv, hroot, randomSalt, Db.setVaultConfig, Db.setVaultParams, unlockKeys,
    generateRandomKey, Db.storeEncryptedVaultKey, Db.updateVaultState, created]

end VaultKeyStore

end OmniDrive
