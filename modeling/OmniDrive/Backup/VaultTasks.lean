import OmniDrive.Recovery.InForce

/-!
# Operations on the vault, statement by statement

The operations that a metadata backup may meet, each as a program on the vault and on what its
owner remembers. An operation keeps the passphrase in force, and the master key in memory stays
the one of that passphrase.
-/

namespace OmniDrive

open StatementProgram Tables VaultKeyStore

variable {P : Primitives} {M : MnemonicScheme P}

namespace Backup

/-- The operations; a phrase has to be generated before a restore can use it. -/
inductive VaultOp where
  | unlock (passphrase : String)
  | lock
  | migrateKdfParamsIfNeeded
  | rotateVaultKey (newPassphrase : String)
  | generateRecoveryKey (headers : HeaderMap)
  | restoreFromRecoveryKey (req : Recovery.RestoreRequest)

def VaultOp.toRecovery : VaultOp → RecoveryOp
  | .unlock passphrase => .unlock passphrase
  | .lock => .lock
  | .migrateKdfParamsIfNeeded => .migrateKdfParamsIfNeeded
  | .rotateVaultKey newPassphrase => .rotateVaultKey newPassphrase
  | .generateRecoveryKey headers => .generateRecoveryKey headers
  | .restoreFromRecoveryKey req => .restoreFromRecoveryKey req

/-! ## Programs -/

section Programs

variable {α ε : Type}

/-- Run a program of the key store. -/
def inVault (p : VaultProg P α) : Prog (RecoveryRun M) VaultError α :=
  p.zoom (fun s => s.world.vault) fun w s => s.withVault w

/-- Run a recovery handler. -/
def inWorld (p : RecoveryProg P α) : Prog (RecoveryRun M) ApiError α :=
  p.zoom (fun s => s.world) fun world s => { s with world }

/-- Run a program, and note what it returns. -/
def noting (p : Prog (RecoveryRun M) ε α) (note : α → RecoveryRun M → RecoveryRun M) :
    Prog (RecoveryRun M) Unit Unit := do
  match ← p.attempt with
  | .ok a => Prog.exec (note a)
  | .error (_ : ε) => pure ()

theorem run_inVault (p : VaultProg P α) (s : RecoveryRun M) :
    (inVault p).run s = ((p.run s.world.vault).1, s.withVault (p.run s.world.vault).2) := by
  rw [inVault, Prog.run_zoom (fun s : RecoveryRun M => s.world.vault) fun w s => s.withVault w]
  · exact fun _ _ => rfl
  · exact fun _ _ _ => rfl
  · exact fun _ => rfl

theorem run_inWorld (p : RecoveryProg P α) (s : RecoveryRun M) :
    (inWorld p).run s = ((p.run s.world).1, { s with world := (p.run s.world).2 }) := by
  rw [inWorld, Prog.run_zoom (fun s : RecoveryRun M => s.world) fun world s => { s with world }]
  · exact fun _ _ => rfl
  · exact fun _ _ _ => rfl
  · exact fun _ => rfl

variable {p : Prog (RecoveryRun M) ε α} {note : α → RecoveryRun M → RecoveryRun M}
variable {s t : RecoveryRun M}

/-- The run of the key store behind a run. -/
theorem of_run_inVault {q : VaultProg P α} {r : Except VaultError α}
    (h : (inVault q).run s = (r, t)) : ∃ w, q.run s.world.vault = (r, w) ∧ t = s.withVault w := by
  rw [run_inVault] at h
  obtain ⟨hr, ht⟩ := Prod.mk.inj h
  refine ⟨(q.run s.world.vault).2, ?_, ht.symm⟩
  rw [← hr]

/-- The run of the handler behind a run. -/
theorem of_run_inWorld {q : RecoveryProg P α} {r : Except ApiError α}
    (h : (inWorld q).run s = (r, t)) : ∃ w, q.run s.world = (r, w) ∧ t = { s with world := w } := by
  rw [run_inWorld] at h
  obtain ⟨hr, ht⟩ := Prod.mk.inj h
  refine ⟨(q.run s.world).2, ?_, ht.symm⟩
  rw [← hr]

theorem run_noting_of_ok {a : α} (h : p.run s = (.ok a, t)) :
    (noting p note).run s = (.ok (), note a t) := by
  have hattempt := Prog.run_attempt (γ := Unit) p s
  rw [h] at hattempt
  rw [noting, Prog.run_bind_of_ok hattempt]
  rfl

theorem run_noting_of_error {e : ε} (h : p.run s = (.error e, t)) :
    (noting p note).run s = (.ok (), t) := by
  have hattempt := Prog.run_attempt (γ := Unit) p s
  rw [h] at hattempt
  rw [noting, Prog.run_bind_of_ok hattempt]
  rfl

end Programs

/-- The statements of an operation, the last of which notes what its owner remembers. A migration
is given the passphrase of the session. -/
def VaultOp.program (op : VaultOp) (session : String) : Prog (RecoveryRun M) Unit Unit :=
  match op with
  | .unlock passphrase =>
    noting (inVault (VaultKeyStore.unlock passphrase)) fun _ s => { s with session := passphrase }
  | .lock => noting (inVault VaultKeyStore.lock) fun _ s => s
  | .migrateKdfParamsIfNeeded =>
    noting (inVault (VaultKeyStore.migrateKdfParamsIfNeeded session)) fun _ s => s
  | .rotateVaultKey newPassphrase =>
    noting (inVault (VaultKeyStore.rotateVaultKey newPassphrase))
      fun _ s => { s with passphrase := newPassphrase }
  | .generateRecoveryKey headers =>
    noting (inWorld (Recovery.generateRecoveryKey M headers))
      fun response s => s.remember response s.world
  | .restoreFromRecoveryKey req =>
    noting (inWorld (Recovery.restoreFromRecoveryKey M req))
      fun _ s => { s with passphrase := req.newPassphrase }

/-! ## Operations that fail -/

/-- The tables and the key slot. -/
def vaultPart (w : VaultWorld P) : VaultDb P × Option (UnlockedVaultKeys P) := (w.db, w.inner)

theorem fixes_draw {α : Type} (tape : ℕ → α) : (draw tape : VaultProg P α).Fixes vaultPart :=
  Prog.Fixes.execReturning _ fun _ => rfl

theorem fixes_selectDb {α : Type} (f : VaultDb P → α) : (selectDb f).Fixes vaultPart :=
  Prog.Fixes.query _

theorem neverFails_storeRewrapped (newGeneration : ℤ) (rewrapped : List (ℤ × P.Wrapped)) :
    (storeRewrapped newGeneration rewrapped).NeverFails := by
  induction rewrapped with
  | nil => trivial
  | cons row rest ih => exact fun _ => ih

/-- A rotation fails before its first write. -/
theorem failsClean_rotateVaultKey (newPassphrase : String) :
    (rotateVaultKey (P := P) newPassphrase).FailsClean vaultPart := by
  rw [rotateVaultKey]
  split
  · exact Prog.Fixes.failsClean trivial
  · apply fixes_requireEnvelopeKey.bind_failsClean
    intro oldEnvelopeKey
    apply Prog.Fixes.bind_failsClean ((fixes_selectDb _).bind fun _ => Prog.Fixes.pure _)
    intro oldGeneration
    apply (fixes_draw _).bind_failsClean
    intro newSalt
    apply (fixes_selectDb _).bind_failsClean
    intro existingConfig
    apply (Prog.Fixes.ofOption _ _).bind_failsClean
    intro existingConfig
    apply (Prog.Fixes.ofExcept _).bind_failsClean
    intro newParams
    apply (Prog.Fixes.ofOption _ _).bind_failsClean
    intro newRootKeys
    apply (fixes_draw _).bind_failsClean
    intro newVaultKey
    apply (fixes_selectDb _).bind_failsClean
    intro allDeks
    apply (Prog.Fixes.ofExcept _).bind_failsClean
    intro rewrapped
    apply Prog.NeverFails.failsClean
    intro _ _
    exact (neverFails_storeRewrapped _ _).bind fun _ _ => trivial

theorem fixes_resealDeviceKey (oldMaster newMaster : P.Key)
    (device : Option (LocalDeviceIdentityRecord P)) :
    (resealDeviceKey oldMaster newMaster device).Fixes vaultPart := by
  rw [resealDeviceKey]
  split
  · apply (fixes_draw _).bind
    intro nonce
    split <;> trivial
  · trivial

/-- So does a migration. -/
theorem failsClean_migrate (passphrase : String) :
    (migrateKdfParamsIfNeeded (P := P) passphrase).FailsClean vaultPart := by
  rw [migrateKdfParamsIfNeeded]
  apply (fixes_selectDb _).bind_failsClean
  intro cfg
  apply (Prog.Fixes.ofOption _ _).bind_failsClean
  intro cfg
  split
  · apply (fixes_selectDb _).bind_failsClean
    intro activeDevices
    split
    · exact Prog.NeverFails.failsClean trivial
    · apply fixes_requireMasterKey.bind_failsClean
      intro oldMaster
      apply fixes_requireEnvelopeKey.bind_failsClean
      intro envelopeKey
      apply fixes_requireKey.bind_failsClean
      intro oldVaultKey
      apply (fixes_selectDb _).bind_failsClean
      intro vault
      apply (Prog.Fixes.ofOption _ _).bind_failsClean
      intro vault
      apply (fixes_draw _).bind_failsClean
      intro newSalt
      apply (Prog.Fixes.ofOption _ _).bind_failsClean
      intro newRoot
      apply Prog.Fixes.bind_failsClean ((fixes_draw _).bind fun _ => Prog.Fixes.pure _)
      intro legacyBlob
      apply (fixes_selectDb _).bind_failsClean
      intro device
      apply (fixes_resealDeviceKey _ _ _).bind_failsClean
      intro newDeviceBlob
      apply Prog.NeverFails.failsClean
      exact fun _ _ => trivial
  · exact Prog.NeverFails.failsClean trivial

/-- The tables and the key slot under a recovery handler. -/
def worldPart (w : RecoveryWorld P) : VaultDb P × Option (UnlockedVaultKeys P) :=
  vaultPart w.vault

theorem fixes_onVaultKeys {α : Type} (told : VaultError → ApiError) {p : VaultProg P α}
    (hp : p.Fixes vaultPart) : (onVaultKeys told p).Fixes worldPart :=
  (hp.zoom fun _ _ => rfl).mapError

theorem fixes_requireRole (headers : HeaderMap) (minRole : Role) :
    (onAccess (Acl.requireRole (P := P) headers minRole)).Fixes worldPart := by
  have hrole : (Acl.requireRole (P := P) headers minRole).Fixes fun w => vaultPart w.vault := by
    rw [Acl.requireRole, Acl.authenticateSession]
    apply Prog.Fixes.bind
    · apply (Prog.Fixes.ofOption _ _).bind
      intro auth
      apply Prog.Fixes.bind
      · exact (Prog.Fixes.query _).mapError
      · exact fun session => Prog.Fixes.ofOption _ _
    · intro session
      apply (Prog.Fixes.query _).bind
      intro vaultId
      apply (Prog.Fixes.ofOption _ _).bind
      intro vaultId
      apply Prog.Fixes.bind
      · exact (Prog.Fixes.query _).mapError
      · intro member
        apply (Prog.Fixes.ofOption _ _).bind
        intro member
        exact (Prog.Fixes.ofExcept _).bind fun _ => Prog.Fixes.pure _
  exact hrole.zoom fun _ _ => rfl

/-- A phrase is generated beside the vault. -/
theorem fixes_generateRecoveryKey (headers : HeaderMap) :
    (Recovery.generateRecoveryKey M headers).Fixes worldPart := by
  rw [Recovery.generateRecoveryKey]
  apply (fixes_requireRole _ _).bind
  intro caller
  apply (fixes_onVaultKeys _ fixes_requireEnvelopeKey).bind
  intro envelopeKey
  apply Prog.Fixes.bind
  · exact (Prog.Fixes.query _).bind fun _ => Prog.Fixes.ofOption _ _
  · intro vault
    apply (fixes_onVaultKeys _ (fixes_draw _)).bind
    intro mnemonic
    apply Prog.Fixes.bind
    · exact Prog.Fixes.execReturning _ fun _ => rfl
    · exact fun recoveryKeyId => Prog.Fixes.pure _

theorem fixes_orRecordFailure {α : Type} (e : ApiError) (o : Option α) :
    (Recovery.orRecordFailure e o : RecoveryProg P α).Fixes worldPart := by
  cases o with
  | some a => trivial
  | none =>
    rw [Recovery.orRecordFailure]
    apply Prog.Fixes.bind
    · exact Prog.Fixes.exec fun _ => rfl
    · exact fun _ => trivial

theorem fixes_deriveNewRoot (newPassphrase : String) :
    (Recovery.deriveNewRoot (P := P) newPassphrase).Fixes vaultPart := by
  rw [Recovery.deriveNewRoot]
  apply (fixes_selectDb _).bind
  intro cfg
  apply (Prog.Fixes.ofOption _ _).bind
  intro cfg
  apply (fixes_draw _).bind
  intro newSalt
  apply (Prog.Fixes.ofExcept _).bind
  intro params
  exact (Prog.Fixes.ofOption _ _).bind fun _ => Prog.Fixes.pure _

/-- A restore fails before its first write to the vault. -/
theorem failsClean_restoreFromRecoveryKey (req : Recovery.RestoreRequest) :
    (Recovery.restoreFromRecoveryKey M req).FailsClean worldPart := by
  rw [Recovery.restoreFromRecoveryKey]
  apply (Prog.Fixes.ofExcept _).bind_failsClean
  intro _
  apply Prog.Fixes.bind_failsClean ((Prog.Fixes.query _).bind fun _ => Prog.Fixes.ofOption _ _)
  intro vault
  apply (Prog.Fixes.query _).bind_failsClean
  intro blocked
  apply (Prog.Fixes.ofExcept _).bind_failsClean
  intro _
  apply (fixes_orRecordFailure _ _).bind_failsClean
  intro mnemonic
  apply (Prog.Fixes.query _).bind_failsClean
  intro records
  apply (Prog.Fixes.ofExcept _).bind_failsClean
  intro _
  apply (fixes_orRecordFailure _ _).bind_failsClean
  intro envelopeKey
  apply (fixes_onVaultKeys _ (fixes_deriveNewRoot _)).bind_failsClean
  intro params
  apply Prog.NeverFails.failsClean
  exact fun _ _ _ => trivial

/-- An unlock with another passphrase changes nothing. -/
theorem unlock_failed (ideal : P.Ideal) {settled : Prop} {minted : ℤ → Option P.Key}
    {kek e : P.Key} {w t : VaultWorld P} (h : EnvelopeVault settled minted kek e w)
    {passphrase : String} {err : VaultError}
    (hrun : (unlock passphrase).run w = (.error err, t)) : t = w := by
  obtain ⟨config, hconfig⟩ := h.config
  obtain ⟨v, hv, hkey⟩ := h.stored
  by_cases hpass : passphrase = ""
  · rw [unlock, if_pos hpass] at hrun
    cases hrun
    rfl
  · rcases hparams : toRootKdfParams config with err' | params
    · simp [unlock, hpass, ensureVaultConfig, Db.getVaultConfig, hconfig, hparams] at hrun
      exact hrun.2.symm
    · rcases hderive : deriveRootKeys P passphrase params with _ | root
      · simp [unlock, hpass, ensureVaultConfig, Db.getVaultConfig, hconfig, hparams,
          ensureLocalVaultParams, Db.getVaultParams, hv, hderive] at hrun
        exact hrun.2.symm
      · have hroot : RootKeysFor w.db passphrase root := ⟨config, params, hconfig, hparams, hderive⟩
        by_cases hkek : kek = root.kek
        · rw [hkek] at hkey
          obtain ⟨t', ht, -⟩ := run_unlock_stored hpass hroot hv hkey
            (ideal.unwrapKey_wrapKey root.kek e)
          rw [ht] at hrun
          cases hrun
        · rw [run_unlock_refused hpass hroot hv hkey (ideal.unwrapKey_other e hkek)] at hrun
          cases hrun
          rfl

/-! ## Operations that leave the vault row and the KDF row alone -/

/-- The vault has these two rows. -/
def VaultRows (config : VaultConfigRecord) (v : VaultRecord P) (w : VaultWorld P) : Prop :=
  w.db.vaultConfig = some config ∧ w.db.vaultState = some v

section Rows

variable {config : VaultConfigRecord} {v : VaultRecord P}

theorem keeps_sealPlaintextTokens (pairs : List (String × String)) :
    (sealPlaintextTokens pairs).Keeps (VaultRows config v) := by
  induction pairs with
  | nil => trivial
  | cons pair rest ih =>
    rw [sealPlaintextTokens]
    apply Prog.Keeps.bind
    · apply Prog.Keeps.attempt
      rw [sealOauthToken]
      apply Prog.Keeps.bind
      · exact Prog.Keeps.bind (Prog.Keeps.query _) fun _ => Prog.Keeps.ofOption _ _
      · intro evk
        exact Prog.Keeps.bind (Prog.Keeps.execReturning _ fun _ hw => hw) fun _ => trivial
    · intro sealed
      cases sealed with
      | ok cipher =>
        apply Prog.Keeps.bind (Prog.Keeps.exec fun _ hw => hw)
        intro _
        exact Prog.Keeps.bind (Prog.Keeps.exec fun _ hw => hw) fun _ => ih
      | error e => exact ih

/-- An unlock of a vault with an envelope key writes neither of them. -/
theorem keeps_unlock {wrapped : P.Wrapped} (hkey : v.encryptedVaultKey = some (.exact wrapped))
    (passphrase : String) : (unlock passphrase).Keeps (VaultRows config v) := by
  rw [unlock]
  split
  · trivial
  · apply Prog.Keeps.bind
    · apply Prog.Keeps.query_bind
      intro w hw
      dsimp only
      rw [hw.1]
      exact Prog.Keeps.bind (Prog.Keeps.ofExcept _) fun _ => trivial
    · intro found
      apply Prog.Keeps.bind
      · apply Prog.Keeps.query_bind
        intro w hw
        dsimp only
        rw [hw.2]
        trivial
      · intro _
        apply Prog.Keeps.bind (Prog.Keeps.ofOption _ _)
        intro rootKeys
        apply Prog.Keeps.query_bind
        intro w hw
        dsimp only
        rw [hw.2]
        apply Prog.Keeps.bind
        · rw [unlockKeys, Option.bind_some, hkey]
          exact Prog.Keeps.bind (Prog.Keeps.ofExcept _) fun _ => trivial
        · intro unlocked
          apply Prog.Keeps.bind (Prog.Keeps.exec fun _ hw => hw)
          intro _
          apply Prog.Keeps.bind (Prog.Keeps.query _)
          intro pairs
          exact Prog.Keeps.bind (keeps_sealPlaintextTokens pairs) fun _ => trivial

/-- The run has these two rows and this passphrase in force. -/
def RunRows (config : VaultConfigRecord) (v : VaultRecord P) (passphrase : String)
    (s : RecoveryRun M) : Prop :=
  VaultRows config v s.world.vault ∧ s.passphrase = passphrase

theorem keeps_noting {α ε : Type} {I : RecoveryRun M → Prop} {p : Prog (RecoveryRun M) ε α}
    {note : α → RecoveryRun M → RecoveryRun M} (hp : p.Keeps I)
    (hnote : ∀ a s, I s → I (note a s)) : (noting p note).Keeps I := by
  apply hp.attempt.bind
  intro r
  cases r with
  | ok a => exact Prog.Keeps.exec (hnote a)
  | error e => trivial

theorem keeps_inVault {α : Type} {p : VaultProg P α} (hp : p.Keeps (VaultRows config v))
    (passphrase : String) :
    (inVault p : Prog (RecoveryRun M) VaultError α).Keeps (RunRows config v passphrase) := by
  have hframe : (inVault p : Prog (RecoveryRun M) VaultError α).Keeps
      fun s => s.passphrase = passphrase := by
    apply Prog.keeps_zoom_of_frame
    exact fun _ _ hs => hs
  exact (hp.zoom fun _ _ => rfl).and hframe

/-- The operation is a lock or an unlock. -/
def VaultOp.isQuiet : VaultOp → Bool
  | .unlock _ | .lock => true
  | _ => false

/-- A lock or an unlock keeps the two rows and the passphrase in force. -/
theorem keeps_program_of_isQuiet {op : VaultOp} (hquiet : op.isQuiet = true)
    {wrapped : P.Wrapped} (hkey : v.encryptedVaultKey = some (.exact wrapped))
    (session passphrase : String) :
    (op.program session : Prog (RecoveryRun M) Unit Unit).Keeps (RunRows config v passphrase) := by
  cases op with
  | unlock given => exact keeps_noting (keeps_inVault (keeps_unlock hkey given) _) fun _ _ hs => hs
  | lock =>
    have hlock : (lock (P := P)).Keeps (VaultRows config v) := Prog.Keeps.exec fun _ hw => hw
    exact keeps_noting (keeps_inVault hlock _) fun _ _ hs => hs
  | _ => cases hquiet

end Rows

/-! ## The master key in memory -/

/-- The master key in memory is the one of the passphrase and the stored salt. -/
def MasterKeyFor (passphrase : String) (w : VaultWorld P) : Prop :=
  ∀ keys root, w.inner = some keys → RootKeysFor w.db passphrase root →
    keys.masterKey = root.masterKey

/-- What a snapshot needs of the vault. -/
def VaultReady (s : RecoveryRun M) : Prop :=
  InForce s ∧ MasterKeyFor s.passphrase s.world.vault

/-- A due migration is given the passphrase in force; a restore comes while the vault is locked
and finds the envelope key in use. -/
def VaultOp.KeepsReady (op : VaultOp) (s : RecoveryRun M) : Prop :=
  match op with
  | .migrateKdfParamsIfNeeded => MigrationDue s.world.vault.db → s.session = s.passphrase
  | .restoreFromRecoveryKey req =>
    RestoresCurrent M req s.world ∧ s.world.vault.inner = none
  | _ => True

section Ready

variable {s t : RecoveryRun M}

/-- What a vault is ready for depends on its tables, its slot and the passphrase. -/
theorem vaultReady_congr (h : VaultReady s) (hdb : t.world.vault.db = s.world.vault.db)
    (hinner : t.world.vault.inner = s.world.vault.inner) (hpass : t.passphrase = s.passphrase)
    (hminted : t.minted = s.minted) : VaultReady t := by
  obtain ⟨⟨hne, root, e, hroot, hvault⟩, hmaster⟩ := h
  refine ⟨⟨?_, root, e, ?_, ?_⟩, ?_⟩
  · rwa [hpass]
  · rwa [hpass, hdb]
  · rw [hminted]
    apply hvault.congr
    · rw [hdb]
    · rw [hdb]
    · rw [hdb]
    · rw [hdb]
    · rw [hinner]
      exact hvault.slot
  · rw [MasterKeyFor, hinner, hdb, hpass]
    exact hmaster

/-- The KEK of a vault in force belongs to one passphrase. -/
theorem passphrase_of_unlock (ideal : P.Ideal) (h : InForce s) {passphrase : String}
    {result : UnlockResult} {w : VaultWorld P}
    (hrun : (unlock passphrase).run s.world.vault = (.ok result, w)) :
    passphrase = s.passphrase := by
  obtain ⟨-, root, e, hroot, hvault⟩ := h
  obtain ⟨-, root', hroot', hkek, -⟩ := outcome_of_unlock_ok ideal hvault hrun
  obtain ⟨_, _, -, -, hderive⟩ := hroot
  obtain ⟨_, _, -, -, hderive'⟩ := hroot'
  exact (ideal.kek_inj hderive' hderive hkek).1

/-- The master key of root keys that were just put into the slot. -/
theorem masterKeyFor_of_slot {passphrase : String} {w : VaultWorld P} {root : RootKeys P}
    {e : P.Key} (hinner : w.inner = some (.withEnvelopeKey root.masterKey root.vaultKey e))
    (hroot : RootKeysFor w.db passphrase root) : MasterKeyFor passphrase w := by
  intro keys root' hkeys hroot'
  rw [hinner] at hkeys
  cases hkeys
  rw [rootKeysFor_unique hroot hroot']
  rfl

theorem vaultReady_of_firstUnlocked {passphrase : String} (h : FirstUnlocked passphrase s) :
    VaultReady s := by
  refine ⟨inForce_of_firstUnlocked h, ?_⟩
  obtain ⟨w₀, w₁, result, hnone, hdeks, hunlock, hinner, ⟨_, _, _, _, hdb⟩, -, rfl, -, -⟩ := h
  obtain ⟨-, root, e, hroot, hslot, -⟩ := envelopeVault_of_first_unlock False hnone hdeks hunlock
  apply masterKeyFor_of_slot (hinner.trans hslot)
  apply rootKeysFor_congr hroot
  rw [hdb]

/-- An operation that returns leaves the vault ready. -/
theorem vaultReady_exec (ideal : P.Ideal) (op : VaultOp) (h : VaultReady s)
    (hguard : op.KeepsReady s) (hexec : op.toRecovery.exec s = some t) : VaultReady t := by
  have hreturns : op.toRecovery.ReturnsOk s := by
    rw [RecoveryOp.ReturnsOk, hexec]
    rfl
  have hstep : op.toRecovery.step s = t :=
    Option.some.inj ((RecoveryOp.exec_eq_step hreturns).symm.trans hexec)
  have hpassphrase : ∀ passphrase, op.toRecovery = .unlock passphrase →
      passphrase = s.passphrase := by
    intro passphrase hop
    rw [hop] at hexec
    obtain ⟨⟨result, w⟩, hret, -⟩ := Option.map_eq_some_iff.mp hexec
    exact passphrase_of_unlock ideal h.1 (returned_eq_some.mp hret)
  have hkeeps : op.toRecovery.KeepsInForce s := by
    cases op with
    | migrateKdfParamsIfNeeded => exact hguard
    | restoreFromRecoveryKey req => exact hguard.1
    | _ => trivial
  have hforce : InForce t := by
    rw [← hstep]
    exact inForce_step ideal h.1 ⟨hreturns, hpassphrase⟩ hkeeps
  obtain ⟨⟨-, root, e, hroot, hvault⟩, hmaster⟩ := h
  refine ⟨hforce, ?_⟩
  cases op with
  | unlock passphrase =>
    obtain ⟨⟨result, w⟩, hret, rfl⟩ := Option.map_eq_some_iff.mp hexec
    obtain ⟨-, root', hroot', -, hinner, -, users, hdb⟩ :=
      outcome_of_unlock_ok ideal hvault (returned_eq_some.mp hret)
    rw [hpassphrase passphrase rfl] at hroot'
    exact masterKeyFor_of_slot (w := w) hinner (rootKeysFor_congr hroot' (by rw [hdb]))
  | lock =>
    rw [VaultOp.toRecovery, RecoveryOp.exec] at hexec
    obtain ⟨⟨result, w⟩, hret, rfl⟩ := Option.map_eq_some_iff.mp hexec
    cases hret
    intro keys root' hkeys
    cases hkeys
  | migrateKdfParamsIfNeeded =>
    obtain ⟨⟨result, w⟩, hret, rfl⟩ := Option.map_eq_some_iff.mp hexec
    have hrun := returned_eq_some.mp hret
    have hsession : w ≠ s.world.vault → s.session = s.passphrase := by
      intro hchanged
      obtain hsame | ⟨cfg, _, _, hcfg, hneeds, hdevices, -⟩ := migrate_ok_cases hrun
      · exact absurd hsame hchanged
      · exact hguard ⟨⟨cfg, hcfg, hneeds⟩, hdevices⟩
    by_cases hchanged : w = s.world.vault
    · show MasterKeyFor s.passphrase w
      rw [hchanged]
      exact hmaster
    · obtain hsame | ⟨root', hroot', -, hinner⟩ := outcome_of_migrate_ok hvault hrun
      · exact absurd hsame hchanged
      · rw [hsession hchanged] at hroot'
        exact masterKeyFor_of_slot (w := w) hinner hroot'
  | rotateVaultKey newPassphrase =>
    obtain ⟨⟨result, w⟩, hret, rfl⟩ := Option.map_eq_some_iff.mp hexec
    obtain ⟨-, root', e', hroot', -, hinner⟩ :=
      outcome_of_rotateVaultKey_ok ideal hvault (returned_eq_some.mp hret)
    exact masterKeyFor_of_slot (w := w) hinner hroot'
  | generateRecoveryKey headers =>
    obtain ⟨⟨response, world⟩, hret, rfl⟩ := Option.map_eq_some_iff.mp hexec
    obtain ⟨_, _, _, -, -, rfl⟩ := Recovery.outcome_of_generate_ok (returned_eq_some.mp hret)
    exact hmaster
  | restoreFromRecoveryKey req =>
    obtain ⟨⟨response, world⟩, hret, rfl⟩ := Option.map_eq_some_iff.mp hexec
    obtain ⟨-, v, mnemonic, envelopeKey, root', -, -, -, hrestored, -⟩ :=
      Recovery.outcome_of_restore_ok (returned_eq_some.mp hret)
    intro keys root'' hkeys
    have hinner : world.vault.inner = some keys := hkeys
    rw [hrestored.slot, hguard.2] at hinner
    cases hinner

/-- A program whose failure is clean leaves the vault ready. -/
theorem vaultReady_noting {α ε : Type} {p : Prog (RecoveryRun M) ε α}
    {note : α → RecoveryRun M → RecoveryRun M}
    (hok : ∀ a u, p.run s = (.ok a, u) → VaultReady (note a u))
    (herror : ∀ e u, p.run s = (.error e, u) → VaultReady u) :
    VaultReady ((noting p note).run s).2 := by
  rcases hrun : p.run s with ⟨e | a, u⟩
  · rw [run_noting_of_error hrun]
    exact herror e u hrun
  · rw [run_noting_of_ok hrun]
    exact hok a u hrun

/-- A clean failure of the key store leaves the vault ready. -/
theorem vaultReady_inVault_error {α : Type} {p : VaultProg P α} (h : VaultReady s)
    (hclean : ∀ e w, p.run s.world.vault = (.error e, w) → vaultPart w = vaultPart s.world.vault)
    (e : VaultError) (u : RecoveryRun M) (hrun : (inVault p).run s = (.error e, u)) :
    VaultReady u := by
  obtain ⟨w, hw, rfl⟩ := of_run_inVault hrun
  have hsame := hclean e w hw
  exact vaultReady_congr h (congrArg Prod.fst hsame) (congrArg Prod.snd hsame) rfl rfl

/-- So does a clean failure of a handler. -/
theorem vaultReady_inWorld_error {α : Type} {p : RecoveryProg P α} (h : VaultReady s)
    (hclean : p.FailsClean worldPart) (e : ApiError) (u : RecoveryRun M)
    (hrun : (inWorld p).run s = (.error e, u)) : VaultReady u := by
  obtain ⟨w, hw, rfl⟩ := of_run_inWorld hrun
  have hsame := hclean _ e w hw
  exact vaultReady_congr h (congrArg Prod.fst hsame) (congrArg Prod.snd hsame) rfl rfl

/-- Every run of an operation leaves the vault ready, also one that fails. -/
theorem vaultReady_program (ideal : P.Ideal) {op : VaultOp} (h : VaultReady s)
    (hguard : op.KeepsReady s) : VaultReady ((op.program s.session).run s).2 := by
  cases op with
  | unlock passphrase =>
    apply vaultReady_noting
    · intro result u hrun
      obtain ⟨w, hw, rfl⟩ := of_run_inVault hrun
      apply vaultReady_exec ideal (.unlock passphrase) h hguard
      rw [VaultOp.toRecovery, RecoveryOp.exec, hw]
      rfl
    · apply vaultReady_inVault_error h
      intro e w hw
      obtain ⟨⟨-, root, e', hroot, hvault⟩, -⟩ := h
      rw [unlock_failed ideal hvault hw]
  | lock =>
    apply vaultReady_noting
    · intro result u hrun
      obtain ⟨w, hw, rfl⟩ := of_run_inVault hrun
      apply vaultReady_exec ideal .lock h hguard
      rw [VaultOp.toRecovery, RecoveryOp.exec, hw]
      rfl
    · intro e u hrun
      obtain ⟨w, hw, -⟩ := of_run_inVault hrun
      cases hw
  | migrateKdfParamsIfNeeded =>
    apply vaultReady_noting
    · intro result u hrun
      obtain ⟨w, hw, rfl⟩ := of_run_inVault hrun
      apply vaultReady_exec ideal .migrateKdfParamsIfNeeded h hguard
      rw [VaultOp.toRecovery, RecoveryOp.exec, hw]
      rfl
    · exact vaultReady_inVault_error h fun e w => failsClean_migrate s.session _ e w
  | rotateVaultKey newPassphrase =>
    apply vaultReady_noting
    · intro result u hrun
      obtain ⟨w, hw, rfl⟩ := of_run_inVault hrun
      apply vaultReady_exec ideal (.rotateVaultKey newPassphrase) h hguard
      rw [VaultOp.toRecovery, RecoveryOp.exec, hw]
      rfl
    · exact vaultReady_inVault_error h fun e w => failsClean_rotateVaultKey newPassphrase _ e w
  | generateRecoveryKey headers =>
    apply vaultReady_noting
    · intro response u hrun
      obtain ⟨w, hw, rfl⟩ := of_run_inWorld hrun
      apply vaultReady_exec ideal (.generateRecoveryKey headers) h hguard
      rw [VaultOp.toRecovery, RecoveryOp.exec, hw]
      rfl
    · exact vaultReady_inWorld_error h (fixes_generateRecoveryKey headers).failsClean
  | restoreFromRecoveryKey req =>
    apply vaultReady_noting
    · intro response u hrun
      obtain ⟨w, hw, rfl⟩ := of_run_inWorld hrun
      apply vaultReady_exec ideal (.restoreFromRecoveryKey req) h hguard
      rw [VaultOp.toRecovery, RecoveryOp.exec, hw]
      rfl
    · exact vaultReady_inWorld_error h (failsClean_restoreFromRecoveryKey req)

end Ready

end Backup

end OmniDrive
