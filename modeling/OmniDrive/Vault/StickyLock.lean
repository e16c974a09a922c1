import OmniDrive.Crypto.Symbolic
import OmniDrive.Library.Interruption
import OmniDrive.Vault.RotationOutcome

/-!
# Locking while an operation runs

A lock is placed between two statements of an operation that ends by overwriting the key slot.
The operation holds copies of the keys it read, so a lock behind its last read of the slot and
before its write is undone. Everywhere else the lock holds.
-/

namespace OmniDrive

open StatementProgram Tables

variable {P : Primitives}

namespace VaultKeyStore

/-- The world after a call of `lock`. -/
def locked (w : VaultWorld P) : VaultWorld P := (lock.run w).2

/-- No key is in memory. -/
def SlotEmpty (w : VaultWorld P) : Prop := w.inner = none

theorem slotEmpty_locked (w : VaultWorld P) : SlotEmpty (locked w) := rfl

theorem slotEmpty_iff (w : VaultWorld P) : SlotEmpty w ↔ locked w = w := by
  constructor
  · intro h
    rw [locked, run_lock, ← show w.inner = none from h]
  · intro h
    rw [← h]
    rfl

/-- The three accessors of the key slot all refuse. -/
def AllLocked (w : VaultWorld P) : Prop :=
  (requireKey.run w).1 = .error .locked ∧ (requireMasterKey.run w).1 = .error .locked ∧
    (requireEnvelopeKey.run w).1 = .error .locked

/-- The accessors refuse together exactly while the slot is empty. -/
theorem allLocked_iff (w : VaultWorld P) : AllLocked w ↔ SlotEmpty w := by
  unfold AllLocked SlotEmpty
  rw [run_requireKey, run_requireMasterKey, run_requireEnvelopeKey]
  rcases w.inner with _ | keys <;> simp

/-! ## Statements that do not look at the slot -/

section Ignores

variable {α β : Type}

@[simp] theorem ignores_selectDb (f : VaultDb P → α) : (selectDb f).Ignores locked :=
  Prog.Ignores.query fun _ => rfl

@[simp] theorem ignores_writeDb (f : VaultDb P → VaultDb P) : (writeDb f).Ignores locked :=
  Prog.Ignores.exec fun _ => rfl

@[simp] theorem ignores_draw (tape : ℕ → α) : (draw tape : VaultProg P α).Ignores locked :=
  Prog.Ignores.execReturning (fun _ => rfl) fun _ => rfl

theorem ignores_updateDevice (deviceId : String) (f : DeviceRecord P → DeviceRecord P) :
    (Db.updateDevice deviceId f).Ignores locked := by
  unfold Db.updateDevice
  exact ignores_writeDb _

theorem ignores_setDevicePublicKey (deviceId : String) (publicKey : P.Key) :
    (Db.setDevicePublicKey deviceId publicKey).Ignores locked :=
  Prog.Ignores.exec fun _ => rfl

@[simp] theorem ignores_storeRewrapped (newGeneration : ℤ) (rewrapped : List (ℤ × P.Wrapped)) :
    (storeRewrapped newGeneration rewrapped).Ignores locked := by
  induction rewrapped with
  | nil => trivial
  | cons o rest ih => exact (ignores_writeDb _).bind fun _ => ih

@[simp] theorem ignores_prepareRotation (newPassphrase : String) (oldEnvelopeKey : P.Key) :
    (prepareRotation newPassphrase oldEnvelopeKey).Ignores locked := by
  simp only [prepareRotation, currentVaultKeyGeneration, Db.getVaultParams, Db.getVaultConfig,
    randomSalt, generateRandomKey, Db.getAllWrappedDeks, Prog.bind_assoc, Prog.pure_eq_ret,
    Prog.ret_bind]
  repeat refine Prog.Ignores.bind (by simp) fun _ => ?_
  simp

@[simp] theorem ignores_commit (r : PreparedRotation P) : r.commit.Ignores locked := by
  unfold PreparedRotation.commit Db.rotateVaultState Db.setVaultConfig
  repeat refine Prog.Ignores.bind (by simp) fun _ => ?_
  simp

theorem ignores_resealDeviceKey (oldMaster newMaster : P.Key)
    (device : Option (LocalDeviceIdentityRecord P)) :
    (resealDeviceKey oldMaster newMaster device).Ignores locked := by
  unfold resealDeviceKey
  split
  · refine (ignores_draw _).bind fun nonce => ?_
    split <;> simp
  · simp

@[simp] theorem ignores_prepareMigration (passphrase : String)
    (oldMaster envelopeKey oldVaultKey : P.Key) :
    (prepareMigration passphrase oldMaster envelopeKey oldVaultKey).Ignores locked := by
  simp only [prepareMigration, Db.getVaultParams, randomSalt, sealLegacyReadKey, encryptSecret,
    Db.getLocalDeviceIdentity, Prog.bind_assoc, Prog.pure_eq_ret, Prog.ret_bind]
  repeat refine Prog.Ignores.bind (by simp [ignores_resealDeviceKey]) fun _ => ?_
  simp

theorem ignores_ownerPrivateKey (masterKey : P.Key) : (ownerPrivateKey masterKey).Ignores locked := by
  apply Prog.Ignores.mapError
  unfold Identity.getDevicePrivateKey Identity.localDevice
  rw [Prog.bind_assoc]
  refine Prog.Ignores.bind (Prog.Ignores.query fun w => rfl) fun device => ?_
  repeat refine Prog.Ignores.bind (by simp) fun _ => ?_
  simp

theorem ignores_rewrapDevices (ownerPrivate newVaultKey : P.Key) (newGeneration : ℤ)
    (devs : List (DeviceRecord P)) :
    (rewrapDevices ownerPrivate newVaultKey newGeneration devs).Ignores locked := by
  induction devs with
  | nil => trivial
  | cons dev rest ih =>
    have hrest : ∀ done : ℕ, (do
        let tail ← rewrapDevices ownerPrivate newVaultKey newGeneration rest
        pure (done + tail)).Ignores locked := fun done => ih.bind fun _ => trivial
    unfold rewrapDevices
    split
    · split
      · exact hrest 0
      · split
        · dsimp only
          exact Prog.Ignores.bind (ignores_updateDevice _ _) fun _ => hrest 1
        · exact hrest 0
    · exact hrest 0

theorem ignores_rewrapMembers (ownerPrivate newVaultKey : P.Key) (newGeneration : ℤ)
    (members : List VaultMemberRecord) :
    (rewrapMembers ownerPrivate newVaultKey newGeneration members).Ignores locked := by
  induction members with
  | nil => trivial
  | cons member rest ih =>
    refine (ignores_selectDb _).bind fun devices => ?_
    refine (ignores_rewrapDevices _ _ _ devices).bind fun done => ?_
    exact ih.bind fun _ => trivial

@[simp] theorem ignores_revokeBody (masterKey : P.Key) : (revokeBody masterKey).Ignores locked := by
  simp only [revokeBody, revokeDevices, currentVaultKeyGeneration, Db.getVaultParams,
    generateRandomKey, Db.rotateVaultKeyOnly, Db.listVaultMembers, Prog.bind_assoc,
    Prog.pure_eq_ret, Prog.ret_bind]
  have henqueue : ∀ g, (Db.enqueueDeksForRewrap g : VaultProg P ℕ).Ignores locked :=
    fun g => Prog.Ignores.execReturning (fun _ => rfl) fun _ => rfl
  repeat
    refine Prog.Ignores.bind ?_ fun _ => ?_
    · simp [ignores_ownerPrivateKey, ignores_rewrapMembers, henqueue]
  simp

end Ignores

/-! ## Operations and their windows -/

/-- The lock holds at every point after it, when it comes in behind `n` statements. -/
def LockSticks {ε α : Type} (n : ℕ) (p : Prog (VaultWorld P) ε α) (w : VaultWorld P) : Prop :=
  Prog.Settles locked SlotEmpty n p w

theorem keeps_of_ignores {ε α : Type} {p : Prog (VaultWorld P) ε α} (h : p.Ignores locked) :
    p.Keeps SlotEmpty := (h.keepsThroughout slotEmpty_iff).keeps

/-- After a lock, a read of the slot finds it empty. -/
theorem keeps_readSlot_bind {β : Type} {k : Option (UnlockedVaultKeys P) → VaultProg P β}
    (h : (k none).Keeps SlotEmpty) : (readSlot >>= k).Keeps SlotEmpty := by
  intro w hw
  have hnone : w.inner = none := hw
  refine ⟨hw, ?_⟩
  change (k w.inner).Keeps SlotEmpty
  rwa [hnone]

section Requires

variable {β : Type} (k : P.Key → VaultProg P β)

end Requires

/-- The write of the slot is undone by nothing: a lock before it is lost, a lock behind it
holds. -/
theorem lockSticks_body_iff {β γ : Type} {body : VaultProg P β}
    {keys : β → UnlockedVaultKeys P} {out : β → γ} (hbody : body.Ignores locked) (n : ℕ)
    (w : VaultWorld P) :
    LockSticks n (body >>= fun r => writeSlot (some (keys r)) >>= fun _ => pure (out r)) w ↔
      ((∃ e, (body.run w).1 = .error e) ∨ body.count w < n) := by
  rcases hrun : body.run w with ⟨e | r, t⟩
  · have hsticks := Prog.settles_bind_of_error (n := n) slotEmpty_locked (keeps_of_ignores hbody)
      hbody (k := fun r => writeSlot (some (keys r)) >>= fun _ => pure (out r)) hrun
    exact iff_of_true hsticks (Or.inl ⟨e, rfl⟩)
  · simp only [reduceCtorEq, exists_false, false_or]
    constructor
    · intro hsticks
      by_contra hn
      refine Prog.not_settles_bind hbody hrun (by omega) ?_ hsticks
      simp [SlotEmpty]
    · intro hn
      obtain ⟨m, rfl⟩ : ∃ m, n = body.count w + (m + 1) := ⟨n - body.count w - 1, by omega⟩
      rw [LockSticks, Prog.settles_bind_add hrun]
      exact Prog.settles_ret slotEmpty_locked m (out r) { t with inner := some (keys r) }

/-! ## The window of each operation -/

/-- The part of a rotation between its read of the slot and its write. -/
def rotationBody (newPassphrase : String) (oldEnvelopeKey : P.Key) :
    VaultProg P (PreparedRotation P) := do
  let r ← prepareRotation newPassphrase oldEnvelopeKey
  r.commit
  pure r

@[simp] theorem ignores_rotationBody (newPassphrase : String) (oldEnvelopeKey : P.Key) :
    (rotationBody newPassphrase oldEnvelopeKey).Ignores locked := by
  unfold rotationBody
  repeat refine Prog.Ignores.bind (by simp) fun _ => ?_
  simp

/-- The body of a rotation fails exactly when the rotation is not ready; otherwise it has seven
statements and one for each DEK. -/
theorem rotationBody_outcome {newPassphrase : String} {evk : P.Key} {w : VaultWorld P}
    (hpass : newPassphrase ≠ "") (n : ℕ) :
    ((∃ e, ((rotationBody newPassphrase evk).run w).1 = .error e) ∨
        (rotationBody newPassphrase evk).count w < n) ↔
      ¬ (RotationReady newPassphrase evk w ∧ n ≤ 7 + w.db.deks.length) := by
  by_cases hready : RotationReady newPassphrase evk w
  · obtain ⟨r, hr, hrun, hcount⟩ := run_prepareRotation hready
    have hbody : (rotationBody newPassphrase evk).run w =
        (.ok r, (r.commit.run { w with draws := w.draws + 2 }).2) := by
      rw [rotationBody, Prog.run_bind_of_ok hrun, r.run_commit,
        Prog.run_bind_of_ok (r.run_commit _)]
      rfl
    have hlength : (rotationBody newPassphrase evk).count w = 7 + w.db.deks.length := by
      rw [rotationBody, Prog.count_bind_of_ok hrun, Prog.count_bind_of_ok (r.run_commit _),
        hcount, r.count_commit, hr.length_rewrapped, Prog.pure_eq_ret, Prog.count_ret]
      omega
    rw [hbody, hlength]
    simp [hready]
  · obtain ⟨e, d, hrun⟩ := run_prepareRotation_error hpass hready
    have hbody : (rotationBody newPassphrase evk).run w = (.error e, { w with draws := d }) := by
      rw [rotationBody, Prog.run_bind_of_error hrun]
    rw [hbody]
    simp [hready]

/-- `rotate_vault_key` loses a lock between its only read of the slot and its write. -/
theorem lockSticks_rotateVaultKey_iff (newPassphrase : String) (n : ℕ) (w : VaultWorld P) :
    LockSticks n (rotateVaultKey newPassphrase) w ↔
      ¬ ((∃ evk, w.inner.bind (·.envelopeVaultKey) = some evk ∧
          RotationReady newPassphrase evk w) ∧ 1 ≤ n ∧ n ≤ 8 + w.db.deks.length) := by
  by_cases hpass : newPassphrase = ""
  · have hfail : (rotateVaultKey newPassphrase : VaultProg P RotationResult) =
        .fail .emptyPassphrase := by rw [rotateVaultKey, if_pos hpass]
    rw [hfail]
    refine iff_of_true (Prog.settles_fail slotEmpty_locked n _ w) ?_
    rintro ⟨⟨evk, -, hready⟩, -⟩
    exact hready.nonempty hpass
  have heq : (rotateVaultKey newPassphrase : VaultProg P RotationResult) = (do
      let keys ← readSlot
      let evk ← Prog.ofOption .locked (keys.bind (·.envelopeVaultKey))
      let r ← rotationBody newPassphrase evk
      writeSlot (some r.keys)
      pure { newGeneration := r.newGeneration, deksRewrapped := r.dekCount }) := by
    rw [rotateVaultKey_eq hpass]
    simp only [requireEnvelopeKey, rotationBody, Prog.bind_assoc, Prog.pure_eq_ret, Prog.ret_bind]
  rw [heq]
  cases n with
  | zero =>
    refine iff_of_true ?_ (by omega)
    apply Prog.settles_zero_of_keeps slotEmpty_locked
    apply keeps_readSlot_bind
    trivial
  | succ n =>
    rw [LockSticks, readSlot, Prog.settles_query_bind_succ]
    rcases henv : w.inner.bind (·.envelopeVaultKey) with _ | evk
    · refine iff_of_true (Prog.settles_fail slotEmpty_locked n _ w) ?_
      rintro ⟨⟨evk, hevk, -⟩, -⟩
      cases hevk
    · rw [Prog.ofOption_some, Prog.ret_bind]
      refine (lockSticks_body_iff (ignores_rotationBody newPassphrase evk) n w).trans ?_
      rw [rotationBody_outcome hpass]
      simp only [Option.some.injEq, exists_eq_left']
      constructor
      · rintro h ⟨hready, -, hn⟩
        exact h ⟨hready, by omega⟩
      · rintro h ⟨hready, hn⟩
        exact h ⟨hready, by omega, by omega⟩

/-- The end of a revocation rotation: the last check and the write of the slot. -/
def revokeEnd (masterKey oldEnvelopeKey : P.Key) (r : P.Key × RevocationRotationResult) :
    VaultProg P RevocationRotationResult := do
  let keys ← readSlot
  let vaultKey ← Prog.ofOption .locked (keys.map (·.vaultKey))
  writeSlot (some (.withPreviousKey masterKey vaultKey r.1 oldEnvelopeKey))
  pure r.2

/-- The reads of a revocation rotation, its body and its end. -/
theorem rotateForRevocation_statements :
    (rotateForRevocation : VaultProg P RevocationRotationResult) = (do
      let keys ← readSlot
      let oldEnvelopeKey ← Prog.ofOption .locked (keys.bind (·.envelopeVaultKey))
      let keys ← readSlot
      let masterKey ← Prog.ofOption .locked (keys.map (·.masterKey))
      let r ← revokeBody masterKey
      revokeEnd masterKey oldEnvelopeKey r) := by
  rw [rotateForRevocation_eq]
  simp only [requireEnvelopeKey, requireMasterKey, requireKey, revokeEnd, Prog.bind_assoc]

/-- A lock in the body of a revocation rotation is noticed by its last check; one behind the
check is lost; one behind the write holds. -/
theorem lockSticks_revokeEnd_iff {masterKey oldEnvelopeKey : P.Key} {w t : VaultWorld P}
    {r : P.Key × RevocationRotationResult} {keys : UnlockedVaultKeys P}
    (hrun : (revokeBody masterKey).run w = (.ok r, t)) (hinner : t.inner = some keys) (n : ℕ) :
    LockSticks n (revokeBody masterKey >>= revokeEnd masterKey oldEnvelopeKey) w ↔
      n ≠ (revokeBody masterKey).count w + 1 := by
  by_cases hn : n ≤ (revokeBody masterKey).count w
  · refine iff_of_true ?_ (by omega)
    apply Prog.settles_bind_of_keeps slotEmpty_locked hn
    · exact keeps_of_ignores ((ignores_revokeBody masterKey).steps n w)
    · intro a
      apply keeps_readSlot_bind
      trivial
  · obtain ⟨m, rfl⟩ : ∃ m, n = (revokeBody masterKey).count w + (m + 1) :=
      ⟨n - (revokeBody masterKey).count w - 1, by omega⟩
    rw [LockSticks, Prog.settles_bind_add hrun, revokeEnd, readSlot,
      Prog.settles_query_bind_succ, hinner, Option.map_some, Prog.ofOption_some, Prog.ret_bind]
    cases m with
    | zero =>
      refine iff_of_false ?_ (by omega)
      apply Prog.not_settles_of_run
      simp [SlotEmpty]
    | succ m =>
      refine iff_of_true ?_ (by omega)
      exact Prog.settles_ret slotEmpty_locked m r.2 _

section RevocationWindow

variable {w : VaultWorld P} {keys : UnlockedVaultKeys P} {evk : P.Key}

/-- Around its body, a revocation rotation has two reads and two statements of its end. -/
theorem count_rotateForRevocation (hinner : w.inner = some keys)
    (henv : keys.envelopeVaultKey = some evk) (ready : RevocationReady keys.masterKey w.db) :
    rotateForRevocation.count w = (revokeBody keys.masterKey).count w + 4 := by
  obtain ⟨result, devices, hbody⟩ := run_revokeBody ready
  simp only [rotateForRevocation_statements, readSlot, Prog.count_query_bind, hinner,
    Option.bind_some, henv, Option.map_some, Prog.ofOption_some, Prog.ret_bind]
  rw [Prog.count_bind_of_ok hbody]
  simp only [revokeEnd, readSlot, Prog.count_query_bind, hinner, Option.map_some,
    Prog.ofOption_some, Prog.ret_bind, writeSlot, Prog.count_exec_bind, Prog.pure_eq_ret,
    Prog.count_ret]

/-- Without an envelope key in the slot, a revocation rotation never writes it. -/
theorem lockSticks_rotateForRevocation_locked (hnone : w.inner.bind (·.envelopeVaultKey) = none)
    (n : ℕ) : LockSticks n rotateForRevocation w := by
  rw [rotateForRevocation_statements]
  cases n with
  | zero =>
    apply Prog.settles_zero_of_keeps slotEmpty_locked
    apply keeps_readSlot_bind
    trivial
  | succ n =>
    rw [LockSticks, readSlot, Prog.settles_query_bind_succ, hnone]
    exact Prog.settles_fail slotEmpty_locked n _ w

/-- With the keys in the slot, the window of a revocation rotation is the step between its last
check and its write. -/
theorem lockSticks_rotateForRevocation_unlocked (hinner : w.inner = some keys)
    (henv : keys.envelopeVaultKey = some evk) (n : ℕ) :
    LockSticks n rotateForRevocation w ↔
      ¬ (RevocationReady keys.masterKey w.db ∧
        n = (revokeBody keys.masterKey).count w + 3) := by
  rw [rotateForRevocation_statements]
  match n with
  | 0 =>
    refine iff_of_true ?_ (by omega)
    apply Prog.settles_zero_of_keeps slotEmpty_locked
    apply keeps_readSlot_bind
    trivial
  | 1 =>
    refine iff_of_true ?_ (by omega)
    rw [LockSticks, readSlot, Prog.settles_query_bind_succ, hinner, Option.bind_some, henv]
    apply Prog.settles_zero_of_keeps slotEmpty_locked
    apply keeps_readSlot_bind
    trivial
  | n + 2 =>
    rw [LockSticks, readSlot, Prog.settles_query_bind_succ, hinner, Option.bind_some, henv,
      Prog.ofOption_some, Prog.ret_bind, Prog.settles_query_bind_succ, hinner, Option.map_some,
      Prog.ofOption_some, Prog.ret_bind]
    by_cases hready : RevocationReady keys.masterKey w.db
    · obtain ⟨result, devices, hbody⟩ := run_revokeBody hready
      refine (lockSticks_revokeEnd_iff hbody hinner n).trans ?_
      constructor
      · rintro hn ⟨-, h⟩
        omega
      · rintro h hn
        exact h ⟨hready, by omega⟩
    · obtain ⟨e, hbody⟩ := run_revokeBody_error hready
      refine iff_of_true ?_ fun h => hready h.1
      exact Prog.settles_bind_of_error slotEmpty_locked
        (keeps_of_ignores (ignores_revokeBody keys.masterKey)) (ignores_revokeBody _) hbody

end RevocationWindow

/-- `rotate_for_revocation` checks the slot again right before it overwrites it, and loses a lock
between these two statements only. -/
theorem lockSticks_rotateForRevocation_iff (n : ℕ) (w : VaultWorld P) :
    LockSticks n rotateForRevocation w ↔
      ¬ ((∃ keys, w.inner = some keys ∧ keys.envelopeVaultKey.isSome ∧
          RevocationReady keys.masterKey w.db) ∧ n + 1 = rotateForRevocation.count w) := by
  rcases hinner : w.inner with _ | keys
  · refine iff_of_true (lockSticks_rotateForRevocation_locked (by rw [hinner]; rfl) n) ?_
    rintro ⟨⟨keys, h, -⟩, -⟩
    cases h
  rcases henv : keys.envelopeVaultKey with _ | evk
  · refine iff_of_true (lockSticks_rotateForRevocation_locked (by rw [hinner]; exact henv) n) ?_
    rintro ⟨⟨keys', h, hsome, -⟩, -⟩
    cases h
    rw [henv] at hsome
    cases hsome
  rw [lockSticks_rotateForRevocation_unlocked hinner henv]
  constructor
  · rintro h ⟨⟨keys', hkeys, -, hready⟩, hcount⟩
    cases hkeys
    rw [count_rotateForRevocation hinner henv hready] at hcount
    exact h ⟨hready, by omega⟩
  · rintro h ⟨hready, hn⟩
    refine h ⟨⟨keys, rfl, by rw [henv]; rfl, hready⟩, ?_⟩
    rw [count_rotateForRevocation hinner henv hready, hn]

/-! ## The window of the migration and of the maintenance -/

/-- A migration that would run: the parameters are old, no second device is active, the keys are
in the slot, and the preparation goes through. -/
def MigrationRuns (passphrase : String) (w : VaultWorld P) : Prop :=
  ∃ cfg keys, w.db.vaultConfig = some cfg ∧ needsKdfMigration cfg.parameterSetVersion = true ∧
    (w.db.devices.filter (·.revokedAt.isNone)).length ≤ 1 ∧ w.inner = some keys ∧
    keys.envelopeVaultKey.isSome ∧ MigrationReady passphrase keys.masterKey w

/-- The part of a migration between its reads of the slot and its write. -/
def migrationBody (passphrase : String) (oldMaster envelopeKey oldVaultKey : P.Key) :
    VaultProg P (PreparedMigration P) := do
  let r ← prepareMigration passphrase oldMaster envelopeKey oldVaultKey
  Db.migrateKdfParamsTx r.writes
  pure r

@[simp] theorem ignores_migrationBody (passphrase : String)
    (oldMaster envelopeKey oldVaultKey : P.Key) :
    (migrationBody passphrase oldMaster envelopeKey oldVaultKey).Ignores locked := by
  unfold migrationBody Db.migrateKdfParamsTx
  repeat refine Prog.Ignores.bind (by simp) fun _ => ?_
  simp

/-- The body of a migration fails exactly when the migration is not ready; otherwise it has five
statements and one for a device key. -/
theorem migrationBody_outcome {passphrase : String} {oldMaster envelopeKey oldVaultKey : P.Key}
    {w : VaultWorld P} (n : ℕ) :
    ((∃ e, ((migrationBody passphrase oldMaster envelopeKey oldVaultKey).run w).1 = .error e) ∨
        (migrationBody passphrase oldMaster envelopeKey oldVaultKey).count w < n) ↔
      ¬ (MigrationReady passphrase oldMaster w ∧ n ≤ 5 + resealStatements w.db) := by
  by_cases hready : MigrationReady passphrase oldMaster w
  · obtain ⟨r, d, -, hrun, -, hcount⟩ := run_prepareMigration envelopeKey oldVaultKey
      hready
    have hbody : ∃ t, (migrationBody passphrase oldMaster envelopeKey oldVaultKey).run w =
        (.ok r, t) := by
      rw [migrationBody, Prog.run_bind_of_ok hrun]
      exact ⟨_, rfl⟩
    have hlength : (migrationBody passphrase oldMaster envelopeKey oldVaultKey).count w =
        5 + resealStatements w.db := by
      rw [migrationBody, Prog.count_bind_of_ok hrun, hcount]
      simp only [Db.migrateKdfParamsTx, writeDb, Prog.count_exec_bind, Prog.pure_eq_ret,
        Prog.count_ret]
      omega
    obtain ⟨t, hbody⟩ := hbody
    rw [hbody, hlength]
    simp [hready]
  · obtain ⟨e, d, hrun⟩ := run_prepareMigration_error envelopeKey oldVaultKey
      hready
    have hbody : (migrationBody passphrase oldMaster envelopeKey oldVaultKey).run w =
        (.error e, { w with draws := d }) := by
      rw [migrationBody, Prog.run_bind_of_error hrun]
    rw [hbody]
    simp [hready]

/-- A migration from its first read of the slot on. -/
def migrateUnlocked (passphrase : String) (fromVersion : ℤ) : VaultProg P MigrationOutcome := do
  let keys ← readSlot
  let oldMaster ← Prog.ofOption .locked (keys.map (·.masterKey))
  let keys ← readSlot
  let envelopeKey ← Prog.ofOption .locked (keys.bind (·.envelopeVaultKey))
  let keys ← readSlot
  let oldVaultKey ← Prog.ofOption .locked (keys.map (·.vaultKey))
  let r ← migrationBody passphrase oldMaster envelopeKey oldVaultKey
  writeSlot (some (.withEnvelopeKey r.newRoot.masterKey r.newRoot.vaultKey envelopeKey))
  pure (.migrated fromVersion targetParameterSetVersion)

/-- The two tests of a migration and the rest of it. -/
theorem migrateKdfParamsIfNeeded_statements (passphrase : String) :
    (migrateKdfParamsIfNeeded passphrase : VaultProg P MigrationOutcome) = (do
      let cfg ← Db.getVaultConfig
      let cfg ← Prog.ofOption (.invalidConfig "no vault_config found") cfg
      if needsKdfMigration cfg.parameterSetVersion then
        let activeDevices ← Db.countActiveDevices
        if activeDevices > 1 then
          pure (.declined "multi-device vault: per-device KDF params deferred to α.C")
        else migrateUnlocked passphrase cfg.parameterSetVersion
      else pure .skipped) := by
  rw [migrateKdfParamsIfNeeded_eq]
  simp only [migrateUnlocked, migrationBody, requireMasterKey, requireEnvelopeKey, requireKey,
    Prog.bind_assoc, Prog.pure_eq_ret, Prog.ret_bind]

/-- After a lock, the rest of a migration stops at its first read of the slot. -/
theorem keeps_migrateUnlocked (passphrase : String) (fromVersion : ℤ) :
    (migrateUnlocked passphrase fromVersion : VaultProg P MigrationOutcome).Keeps SlotEmpty := by
  apply keeps_readSlot_bind
  trivial

/-- The rest of a migration loses a lock between its third read of the slot and its write. -/
theorem lockSticks_migrateUnlocked_iff (passphrase : String) (fromVersion : ℤ) (n : ℕ)
    (w : VaultWorld P) :
    LockSticks n (migrateUnlocked passphrase fromVersion) w ↔
      ¬ ((∃ keys, w.inner = some keys ∧ keys.envelopeVaultKey.isSome ∧
          MigrationReady passphrase keys.masterKey w) ∧
        3 ≤ n ∧ n ≤ 8 + resealStatements w.db) := by
  rcases hinner : w.inner with _ | keys
  · refine iff_of_true ?_ (by simp)
    cases n with
    | zero => exact Prog.settles_zero_of_keeps slotEmpty_locked (keeps_migrateUnlocked _ _) w
    | succ n =>
      rw [migrateUnlocked, LockSticks, readSlot, Prog.settles_query_bind_succ, hinner]
      exact Prog.settles_fail slotEmpty_locked n _ w
  match n with
  | 0 =>
    refine iff_of_true ?_ (by omega)
    exact Prog.settles_zero_of_keeps slotEmpty_locked (keeps_migrateUnlocked _ _) w
  | 1 =>
    refine iff_of_true ?_ (by omega)
    rw [migrateUnlocked, LockSticks, readSlot, Prog.settles_query_bind_succ, hinner]
    apply Prog.settles_zero_of_keeps slotEmpty_locked
    apply keeps_readSlot_bind
    trivial
  | n + 2 =>
    rw [migrateUnlocked, LockSticks, readSlot, Prog.settles_query_bind_succ, hinner,
      Option.map_some, Prog.ofOption_some, Prog.ret_bind, Prog.settles_query_bind_succ, hinner,
      Option.bind_some]
    rcases henv : keys.envelopeVaultKey with _ | evk
    · refine iff_of_true (Prog.settles_fail slotEmpty_locked n _ w) ?_
      rintro ⟨⟨keys', h, hsome, -⟩, -⟩
      cases h
      rw [henv] at hsome
      cases hsome
    rw [Prog.ofOption_some, Prog.ret_bind]
    cases n with
    | zero =>
      refine iff_of_true ?_ (by omega)
      apply Prog.settles_zero_of_keeps slotEmpty_locked
      apply keeps_readSlot_bind
      trivial
    | succ n =>
      rw [Prog.settles_query_bind_succ, hinner, Option.map_some, Prog.ofOption_some, Prog.ret_bind]
      refine (lockSticks_body_iff (ignores_migrationBody passphrase keys.masterKey evk
        keys.vaultKey) n w).trans ?_
      rw [migrationBody_outcome]
      constructor
      · rintro h ⟨⟨keys', hkeys, -, hready⟩, -, hn⟩
        cases hkeys
        exact h ⟨hready, by omega⟩
      · rintro h ⟨hready, hn⟩
        exact h ⟨⟨keys, rfl, by rw [henv]; rfl, hready⟩, by omega, by omega⟩

/-- A migration that ends at its tests never touches the slot. -/
theorem lockSticks_pure {α : Type} (n : ℕ) (a : α) (w : VaultWorld P) :
    LockSticks n (.ret a : VaultProg P α) w :=
  Prog.settles_ret slotEmpty_locked n a w

/-- A whole migration stops after a lock that comes first. -/
theorem keeps_migrate (passphrase : String) :
    (migrateKdfParamsIfNeeded passphrase : VaultProg P MigrationOutcome).Keeps SlotEmpty := by
  rw [migrateKdfParamsIfNeeded_statements]
  refine Prog.Keeps.bind (Prog.Keeps.query _) fun cfg => ?_
  refine Prog.Keeps.bind (Prog.Keeps.ofOption _ _) fun cfg => ?_
  split
  · refine Prog.Keeps.bind (Prog.Keeps.query _) fun activeDevices => ?_
    split
    · trivial
    · exact keeps_migrateUnlocked _ _
  · trivial

/-- `migrate_kdf_params_if_needed` loses a lock between its last read of the slot and its
write. -/
theorem lockSticks_migrate_iff (passphrase : String) (n : ℕ) (w : VaultWorld P) :
    LockSticks n (migrateKdfParamsIfNeeded passphrase) w ↔
      ¬ (MigrationRuns passphrase w ∧ 5 ≤ n ∧ n ≤ 10 + resealStatements w.db) := by
  cases n with
  | zero =>
    refine iff_of_true ?_ (by omega)
    exact Prog.settles_zero_of_keeps slotEmpty_locked (keeps_migrate passphrase) w
  | succ n =>
    rw [migrateKdfParamsIfNeeded_statements, LockSticks, Db.getVaultConfig, selectDb,
      Prog.settles_query_bind_succ]
    rcases hcfg : w.db.vaultConfig with _ | cfg
    · refine iff_of_true (Prog.settles_fail slotEmpty_locked n _ w) ?_
      rintro ⟨⟨cfg, keys, h, -⟩, -⟩
      rw [hcfg] at h
      cases h
    rw [Prog.ofOption_some, Prog.ret_bind]
    rcases hneeds : needsKdfMigration cfg.parameterSetVersion with _ | _
    · refine iff_of_true ?_ ?_
      · rw [if_neg (by simp)]
        exact lockSticks_pure n _ w
      · rintro ⟨⟨cfg', keys, h, hneeds', -⟩, -⟩
        rw [hcfg] at h
        cases h
        rw [hneeds] at hneeds'
        cases hneeds'
    rw [if_pos rfl, Db.countActiveDevices, selectDb]
    cases n with
    | zero =>
      refine iff_of_true ?_ (by omega)
      apply Prog.settles_zero_of_keeps slotEmpty_locked
      refine Prog.Keeps.bind (Prog.Keeps.query _) fun activeDevices => ?_
      split
      · trivial
      · exact keeps_migrateUnlocked _ _
    | succ n =>
      rw [Prog.settles_query_bind_succ]
      by_cases hdevices : (w.db.devices.filter (·.revokedAt.isNone)).length > 1
      · rw [if_pos hdevices]
        refine iff_of_true (lockSticks_pure n _ w) ?_
        rintro ⟨⟨cfg', keys, -, -, h, -⟩, -⟩
        omega
      · rw [if_neg hdevices]
        refine (lockSticks_migrateUnlocked_iff passphrase cfg.parameterSetVersion n w).trans ?_
        constructor
        · rintro h ⟨⟨cfg', keys, -, -, -, hinner, henv, hready⟩, hn, hn'⟩
          exact h ⟨⟨keys, hinner, henv, hready⟩, by omega, by omega⟩
        · rintro h ⟨⟨keys, hinner, henv, hready⟩, hn, hn'⟩
          exact h ⟨⟨cfg, keys, hcfg, hneeds, by omega, hinner, henv, hready⟩, by omega, by omega⟩

/-! ## The maintenance after an unlock -/

theorem keepsThroughout_of_ignores {ε α : Type} {p : Prog (VaultWorld P) ε α}
    (h : p.Ignores locked) : p.KeepsThroughout SlotEmpty := h.keepsThroughout slotEmpty_iff

theorem ignores_localDevice : (Identity.localDevice : Identity.IdentityProg P _).Ignores locked := by
  refine Prog.Ignores.bind (Prog.Ignores.query fun w => rfl) fun device => ?_
  simp

theorem ignores_drawIndex : (Identity.drawIndex : Identity.IdentityProg P _).Ignores locked :=
  Prog.Ignores.execReturning (fun _ => rfl) fun _ => rfl

theorem ignores_raiseStmt {α : Type} {p : VaultProg P α} (h : p.Ignores locked) :
    (Identity.raiseStmt p).Ignores locked := h.mapError

theorem ignores_ensureDeviceKeypair (masterKey : P.Key) :
    (Identity.ensureDeviceKeypair masterKey).Ignores locked := by
  refine ignores_localDevice.bind fun device => ?_
  split
  · trivial
  · refine ignores_drawIndex.bind fun secret => ?_
    refine ignores_drawIndex.bind fun nonce => ?_
    refine Prog.Ignores.bind (ignores_raiseStmt (ignores_writeDb _)) fun _ => ?_
    refine Prog.Ignores.bind (ignores_raiseStmt (ignores_setDevicePublicKey _ _)) fun _ => ?_
    trivial

theorem ignores_ensureDeviceKyberKeypair (masterKey : P.Key) :
    (Identity.ensureDeviceKyberKeypair masterKey).Ignores locked := by
  have hgenerate : ∀ device, (Identity.ensureDeviceKyberKeypair.generate masterKey
      device).Ignores locked := by
    intro device
    refine ignores_drawIndex.bind fun pair => ?_
    refine ignores_drawIndex.bind fun nonce => ?_
    refine Prog.Ignores.bind (ignores_raiseStmt (ignores_writeDb _)) fun _ => ?_
    refine Prog.Ignores.bind (ignores_raiseStmt (ignores_updateDevice _ _)) fun _ => ?_
    trivial
  refine ignores_localDevice.bind fun device => ?_
  split
  · split
    · trivial
    · exact hgenerate device
  · exact hgenerate device

/-- Behind its migration, the maintenance never writes the slot. -/
theorem lockSticks_maintenance_iff (passphrase : String) (n : ℕ) (w : VaultWorld P) :
    LockSticks n (runPostUnlockMaintenance passphrase) w ↔
      LockSticks n (migrateKdfParamsIfNeeded passphrase) w := by
  refine Prog.settles_attempt_bind slotEmpty_locked (fun r => ?_) w
  refine Prog.KeepsThroughout.bind ?_ fun masterKey => ?_
  · exact (Prog.KeepsThroughout.query _).bind fun _ => Prog.KeepsThroughout.ofOption _ _
  refine Prog.KeepsThroughout.bind ?_ fun _ => ?_
  · exact (keepsThroughout_of_ignores (ignores_ensureDeviceKeypair masterKey)).attempt
  refine Prog.KeepsThroughout.bind ?_ fun _ => trivial
  exact (keepsThroughout_of_ignores (ignores_ensureDeviceKyberKeypair masterKey)).attempt

/-! ## Which locks hold -/

/-- An operation that ends by overwriting the key slot, with its argument. -/
inductive SlotOperation where
  | runPostUnlockMaintenance (passphrase : String)
  | migrateKdfParamsIfNeeded (passphrase : String)
  | rotateVaultKey (newPassphrase : String)
  | rotateForRevocation

namespace SlotOperation

/-- The world after `n` statements of the operation, a lock, and `m` more statements. -/
def lockedBehind (n m : ℕ) (w : VaultWorld P) : SlotOperation → VaultWorld P
  | .runPostUnlockMaintenance passphrase =>
    Prog.interrupted locked n m (VaultKeyStore.runPostUnlockMaintenance passphrase) w
  | .migrateKdfParamsIfNeeded passphrase =>
    Prog.interrupted locked n m (VaultKeyStore.migrateKdfParamsIfNeeded passphrase) w
  | .rotateVaultKey newPassphrase =>
    Prog.interrupted locked n m (VaultKeyStore.rotateVaultKey newPassphrase) w
  | .rotateForRevocation => Prog.interrupted locked n m VaultKeyStore.rotateForRevocation w

/-- The lock falls between the last read of the slot and its write by an operation that gets as
far as its write. -/
def InWindow (n : ℕ) (w : VaultWorld P) : SlotOperation → Prop
  | .runPostUnlockMaintenance passphrase | .migrateKdfParamsIfNeeded passphrase =>
    MigrationRuns passphrase w ∧ 5 ≤ n ∧ n ≤ 10 + resealStatements w.db
  | .rotateVaultKey newPassphrase =>
    (∃ evk, w.inner.bind (·.envelopeVaultKey) = some evk ∧ RotationReady newPassphrase evk w) ∧
      1 ≤ n ∧ n ≤ 8 + w.db.deks.length
  | .rotateForRevocation =>
    (∃ keys, w.inner = some keys ∧ keys.envelopeVaultKey.isSome ∧
      RevocationReady keys.masterKey w.db) ∧ n + 1 = VaultKeyStore.rotateForRevocation.count w

end SlotOperation

/-- A lock holds at every later point exactly when it does not fall into the window of the
operation it interrupts. -/
theorem lock_holds_iff (op : SlotOperation) (n : ℕ) (w : VaultWorld P) :
    (∀ m, AllLocked (op.lockedBehind n m w)) ↔ ¬ op.InWindow n w := by
  simp only [allLocked_iff]
  cases op with
  | runPostUnlockMaintenance passphrase =>
    exact (lockSticks_maintenance_iff passphrase n w).trans (lockSticks_migrate_iff passphrase n w)
  | migrateKdfParamsIfNeeded passphrase => exact lockSticks_migrate_iff passphrase n w
  | rotateVaultKey newPassphrase => exact lockSticks_rotateVaultKey_iff newPassphrase n w
  | rotateForRevocation => exact lockSticks_rotateForRevocation_iff n w

/-- An unlocked vault whose KDF parameters are old and that has no device key yet. -/
def oldParamsUnlocked : VaultWorld symbolic :=
  { db :=
      { vaultState := some
          { masterKeySalt := [], argon2Params := ⟨1, 65536, 3, 1⟩, vaultId := "local-vault-" }
        vaultConfig := some
          { salt := [], parameterSetVersion := 1, memoryCostKib := 65536, timeCost := 3, lanes := 1 } }
    inner := some (.withEnvelopeKey .zero .zero .zero)
    draws := 0 }

/-- A lock during the background maintenance of such a vault, right after it has copied the keys,
is undone. -/
theorem lock_lost_in_maintenance :
    ¬ ∀ (op : SlotOperation) (n : ℕ) (w : VaultWorld symbolic) (m : ℕ),
      AllLocked (op.lockedBehind n m w) := by
  intro hall
  have hsticks : LockSticks 5 (runPostUnlockMaintenance "correct horse") oldParamsUnlocked :=
    fun m => (allLocked_iff _).mp
      (hall (.runPostUnlockMaintenance "correct horse") 5 oldParamsUnlocked m)
  rw [lockSticks_maintenance_iff, lockSticks_migrate_iff] at hsticks
  refine hsticks ⟨⟨_, _, rfl, rfl, by decide, rfl, rfl, rfl, rfl, ?_⟩, le_rfl, by decide⟩
  rintro blob ⟨⟩

end VaultKeyStore

end OmniDrive
