import OmniDrive.Recovery.Handlers
import OmniDrive.Vault.Envelope

/-!
# Runs with recovery phrases

What the recovery handlers leave when they return, and the runs of all operations that touch the
envelope key. Beside the world, a run remembers the passphrase in force, the passphrase of the
last unlock, the DEK that each row was minted with and the phrase of each recovery row.
-/

namespace OmniDrive

open StatementProgram Tables VaultKeyStore

variable {P : Primitives} {M : MnemonicScheme P}

namespace Recovery

variable {s s' : RecoveryWorld P}

/-! ## Outcomes of the handlers -/

theorem run_onVaultKeys_ok {α : Type} {told : VaultError → ApiError} {p : VaultProg P α} {a : α}
    (h : (onVaultKeys told p).run s = (.ok a, s')) :
    ∃ w, p.run s.vault = (.ok a, w) ∧ s' = s.withVault w := by
  rw [run_onVaultKeys] at h
  rcases hrun : p.run s.vault with ⟨err | b, w⟩
  · rw [hrun] at h
    cases h
  · rw [hrun] at h
    cases h
    exact ⟨w, rfl, rfl⟩

/-- A role check that passes changes nothing. -/
theorem run_requireRole_ok {headers : HeaderMap} {minRole : Role} {caller : AuthorizedCaller}
    (h : (onAccess (Acl.requireRole headers minRole)).run s = (.ok caller, s')) : s' = s := by
  rw [run_onAccess] at h
  rcases hrun : (Acl.requireRole headers minRole).run s.access with ⟨r, access⟩
  rw [hrun] at h
  obtain ⟨rfl, rfl⟩ := Prod.mk.inj h
  rw [(Acl.passes_of_requireRole hrun).2]

/-- The vault row that is required is the one stored. -/
theorem run_requireVault_bind_ok {α : Type} {f : VaultRecord P → RecoveryProg P α} {a : α}
    (h : (requireVault >>= f).run s = (.ok a, s')) :
    ∃ v, s.vault.db.vaultState = some v ∧ (f v).run s = (.ok a, s') := by
  rw [requireVault, Prog.bind_assoc, Prog.run_query_bind] at h
  exact Prog.run_ofOption_bind_ok h

/-- A phrase that was generated wraps the envelope key in memory, in a new row. -/
theorem outcome_of_generate_ok {headers : HeaderMap} {response : GenerateResponse M}
    (h : (generateRecoveryKey M headers).run s = (.ok response, s')) :
    ∃ e vaultId createdBy, s.vault.inner.bind (·.envelopeVaultKey) = some e ∧
      response.recoveryKeyId = s.recoverySequence + 1 ∧
      s' = appendRecoveryKey vaultId (wrapKey (M.recoveryKey response.mnemonic) e)
        response.vkGeneration createdBy (s.withVault { s.vault with draws := s.vault.draws + 1 }) := by
  rw [generateRecoveryKey] at h
  obtain ⟨caller, t, hcaller, hrest⟩ := Prog.run_bind_ok h
  rw [run_requireRole_ok hcaller] at hrest
  obtain ⟨e, t', he, hrest'⟩ := Prog.run_bind_ok hrest
  obtain ⟨w, hw, hworld⟩ := run_onVaultKeys_ok he
  rw [run_requireEnvelopeKey] at hw
  rcases henv : s.vault.inner.bind (·.envelopeVaultKey) with _ | e'
  · rw [henv] at hw
    cases hw
  rw [henv] at hw
  cases hw
  rw [hworld] at hrest'
  obtain ⟨v, -, hlast⟩ := run_requireVault_bind_ok hrest'
  obtain ⟨mnemonic, t'', hmnemonic, hend⟩ := Prog.run_bind_ok hlast
  obtain ⟨w, hw, rfl⟩ := run_onVaultKeys_ok hmnemonic
  cases hw
  cases hend
  exact ⟨_, _, _, rfl, rfl, rfl⟩

/-- A revocation of the phrases touches their rows only. -/
theorem outcome_of_revoke_ok {headers : HeaderMap} {n : ℕ}
    (h : (revokeRecoveryKeys headers).run s = (.ok n, s')) :
    s'.access = s.access ∧ s'.recoverySequence = s.recoverySequence ∧
      ∀ r ∈ s'.recoveryKeys, r.revokedAt = none → r ∈ s.recoveryKeys := by
  rw [revokeRecoveryKeys] at h
  obtain ⟨caller, t, hcaller, hrest⟩ := Prog.run_bind_ok h
  rw [run_requireRole_ok hcaller] at hrest
  cases hrest
  refine ⟨rfl, rfl, ?_⟩
  intro r hr hactive
  obtain ⟨old, hold, rfl⟩ := mem_updateWhere.mp hr
  split at hactive
  · cases hactive
  · rename_i hother
    rw [if_neg hother]
    exact hold

/-- A revocation of the phrases keeps the identifiers of their rows. -/
theorem ids_of_revoke_ok {headers : HeaderMap} {n : ℕ}
    (h : (revokeRecoveryKeys headers).run s = (.ok n, s')) :
    ∀ r ∈ s'.recoveryKeys, ∃ old ∈ s.recoveryKeys, r.id = old.id := by
  rw [revokeRecoveryKeys] at h
  obtain ⟨caller, t, hcaller, hrest⟩ := Prog.run_bind_ok h
  rw [run_requireRole_ok hcaller] at hrest
  cases hrest
  intro r hr
  obtain ⟨old, hold, rfl⟩ := mem_updateWhere.mp hr
  refine ⟨old, hold, ?_⟩
  split <;> rfl

/-- The new root keys of a restore come from its passphrase. -/
theorem outcome_of_deriveNewRoot_ok {passphrase : String} {w w' : VaultWorld P}
    {params : RootKdfParams} {root : RootKeys P}
    (h : (deriveNewRoot passphrase).run w = (.ok (params, root), w')) :
    w' = { w with draws := w.draws + 1 } ∧ toRootKdfParams params.toRecord = .ok params ∧
      deriveRootKeys P passphrase params = some root := by
  rw [deriveNewRoot, Db.getVaultConfig, run_selectDb_bind] at h
  obtain ⟨config, -, h⟩ := Prog.run_ofOption_bind_ok h
  rw [randomSalt, run_draw_bind] at h
  obtain ⟨params', hparams, h⟩ := Prog.run_ofExcept_bind_ok h
  obtain ⟨root', hroot, h⟩ := Prog.run_ofOption_bind_ok h
  cases h
  exact ⟨rfl, toRootKdfParams_toRecord hparams, hroot⟩

/-- The vault row after a restore. -/
def restoredRecord (params : RootKdfParams) (kek envelopeKey : P.Key) (v : VaultRecord P) :
    VaultRecord P :=
  { v with
    masterKeySalt := params.salt
    argon2Params := params.toArgon2Params
    encryptedVaultKey := some (.exact (wrapKey kek envelopeKey))
    vaultKeyGeneration := some (v.vaultKeyGeneration.getD 1) }

/-- What a restore leaves: two rows of the vault are new, the key slot is the old one. -/
structure Restored (envelopeKey : P.Key) (passphrase : String) (v : VaultRecord P)
    (w w' : VaultWorld P) (root : RootKeys P) : Prop where
  rootKeys : RootKeysFor w'.db passphrase root
  state : ∃ params, w'.db.vaultState = some (restoredRecord params root.kek envelopeKey v)
  deks : w'.db.deks = w.db.deks
  sequence : w'.db.dekSequence = w.db.dekSequence
  slot : w'.inner = w.inner

/-- A restore that returns found a row under its phrase, and wraps the key of that row under the
KEK of the new passphrase. -/
theorem outcome_of_restore_ok {req : RestoreRequest} {response : RestoreResponse}
    (h : (restoreFromRecoveryKey M req).run s = (.ok response, s')) :
    req.newPassphrase ≠ "" ∧ ∃ v mnemonic envelopeKey root, s.vault.db.vaultState = some v ∧
      M.parse req.mnemonic = some mnemonic ∧
      findEnvelopeKey (M.recoveryKey mnemonic) (activeKeys v.vaultId s) = some envelopeKey ∧
      Restored envelopeKey req.newPassphrase v s.vault s'.vault root ∧
      s'.recoveryKeys = s.recoveryKeys ∧ s'.recoverySequence = s.recoverySequence := by
  rw [restoreFromRecoveryKey] at h
  obtain ⟨_, hcheck, h⟩ := Prog.run_ofExcept_bind_ok h
  have hpass : req.newPassphrase ≠ "" := by
    intro hempty
    rw [checkRestoreRequest, hempty] at hcheck
    cases hafter : req.retryAfter with
    | none => simp [hafter] at hcheck
    | some seconds => simp [hafter] at hcheck
  refine ⟨hpass, ?_⟩
  obtain ⟨v, hv, h⟩ := run_requireVault_bind_ok h
  rw [Prog.run_query_bind] at h
  obtain ⟨_, -, h⟩ := Prog.run_ofExcept_bind_ok h
  rcases hparse : M.parse req.mnemonic with _ | mnemonic
  · rw [hparse] at h
    cases h
  rw [hparse, orRecordFailure, Prog.pure_eq_ret, Prog.ret_bind, listActiveRecoveryKeys,
    Prog.run_query_bind] at h
  obtain ⟨_, -, h⟩ := Prog.run_ofExcept_bind_ok h
  rcases hfind : findEnvelopeKey (M.recoveryKey mnemonic) (activeKeys v.vaultId s) with _ | e
  · rw [hfind] at h
    cases h
  rw [hfind, orRecordFailure, Prog.pure_eq_ret, Prog.ret_bind] at h
  obtain ⟨⟨params, root⟩, t, hroot, h⟩ := Prog.run_bind_ok h
  obtain ⟨w, hw, rfl⟩ := run_onVaultKeys_ok hroot
  obtain ⟨rfl, hparams, hderive⟩ := outcome_of_deriveNewRoot_ok hw
  obtain ⟨_, t, hstate, h⟩ := Prog.run_bind_ok h
  obtain ⟨w, hw, rfl⟩ := run_onVaultKeys_ok hstate
  cases hw
  obtain ⟨_, t, hconfig, h⟩ := Prog.run_bind_ok h
  obtain ⟨w, hw, rfl⟩ := run_onVaultKeys_ok hconfig
  cases hw
  cases h
  refine ⟨v, mnemonic, e, root, hv, rfl, hfind, ⟨⟨params.toRecord, params, rfl, hparams, hderive⟩,
    ⟨params, ?_⟩, rfl, rfl, rfl⟩, rfl, rfl⟩
  show Option.map _ s.vault.db.vaultState = _
  rw [hv]
  rfl

/-- A restore of the envelope key in use keeps the vault, under the KEK of the new passphrase. -/
theorem envelopeVault_of_restored {settled : Prop} {minted : ℤ → Option P.Key} {kek e : P.Key}
    {w w' : VaultWorld P} {v : VaultRecord P} {root : RootKeys P} {passphrase : String}
    (h : EnvelopeVault settled minted kek e w) (hv : w.db.vaultState = some v)
    (hr : Restored e passphrase v w w' root) : EnvelopeVault settled minted root.kek e w' := by
  obtain ⟨params, hstate⟩ := hr.state
  constructor
  · obtain ⟨config, params', hconfig, -⟩ := hr.rootKeys
    exact ⟨config, hconfig⟩
  · exact ⟨_, hstate, rfl⟩
  · rw [hr.slot]
    exact h.slot
  · apply h.table.congr hr.deks hr.sequence
    simp [generationOf, hstate, hv, restoredRecord]

end Recovery

/-! ## Runs -/

/-- The operations on keys and phrases. A migration follows an unlock and is given its
passphrase. -/
inductive RecoveryOp where
  | unlock (passphrase : String)
  | lock
  | migrateKdfParamsIfNeeded
  | createPackDek (creatingInodeId : ℤ)
  | rotateForRevocation
  | processRewrapBatch (batchSize : ℤ)
  | rotateVaultKey (newPassphrase : String)
  | generateRecoveryKey (headers : HeaderMap)
  | revokeRecoveryKeys (headers : HeaderMap)
  | restoreFromRecoveryKey (req : Recovery.RestoreRequest)

/-- A world with what its owner remembers. -/
structure RecoveryRun (M : MnemonicScheme P) where
  world : RecoveryWorld P
  /-- Set by the first unlock, a rotation to a new passphrase or a restore. -/
  passphrase : String
  /-- The passphrase of the last unlock. -/
  session : String
  minted : ℤ → Option P.Key
  phrases : ℤ → Option M.Mnemonic

/-- The value and the state of a run that returned. -/
def returned {S ε α : Type} : Except ε α × S → Option (α × S)
  | (.ok a, s) => some (a, s)
  | (.error _, _) => none

theorem returned_eq_some {S ε α : Type} {r : Except ε α × S} {a : α} {s : S} :
    returned r = some (a, s) ↔ r = (.ok a, s) := by
  rcases r with ⟨err | b, t⟩ <;> simp [returned]

namespace RecoveryRun

def withVault (w : VaultWorld P) (s : RecoveryRun M) : RecoveryRun M :=
  { s with world := s.world.withVault w }

/-- Remember the phrase of a new row. -/
def remember (response : Recovery.GenerateResponse M) (world : RecoveryWorld P)
    (s : RecoveryRun M) : RecoveryRun M :=
  { s with
    world
    phrases := Function.update s.phrases response.recoveryKeyId (some response.mnemonic) }

end RecoveryRun

/-- One operation; nothing unless it returns `Ok`. -/
def RecoveryOp.exec (op : RecoveryOp) (s : RecoveryRun M) : Option (RecoveryRun M) :=
  match op with
  | .unlock passphrase => (returned ((VaultKeyStore.unlock passphrase).run s.world.vault)).map
      fun r => { s.withVault r.2 with session := passphrase }
  | .lock => (returned (VaultKeyStore.lock.run s.world.vault)).map fun r => s.withVault r.2
  | .migrateKdfParamsIfNeeded =>
    (returned ((VaultKeyStore.migrateKdfParamsIfNeeded s.session).run s.world.vault)).map
      fun r => s.withVault r.2
  | .createPackDek inodeId => (returned ((VaultKeyStore.createPackDek inodeId).run s.world.vault)).map
      fun r => { s.withVault r.2 with minted := DekRun.record s.minted r.1.1 r.1.2 }
  | .rotateForRevocation => (returned (VaultKeyStore.rotateForRevocation.run s.world.vault)).map
      fun r => s.withVault r.2
  | .processRewrapBatch batchSize =>
    (returned ((VaultKeyStore.processRewrapBatch batchSize).run s.world.vault)).map
      fun r => s.withVault r.2
  | .rotateVaultKey newPassphrase =>
    (returned ((VaultKeyStore.rotateVaultKey newPassphrase).run s.world.vault)).map
      fun r => { s.withVault r.2 with passphrase := newPassphrase }
  | .generateRecoveryKey headers =>
    (returned ((Recovery.generateRecoveryKey M headers).run s.world)).map
      fun r => s.remember r.1 r.2
  | .revokeRecoveryKeys headers =>
    (returned ((Recovery.revokeRecoveryKeys headers).run s.world)).map
      fun r => { s with world := r.2 }
  | .restoreFromRecoveryKey req =>
    (returned ((Recovery.restoreFromRecoveryKey M req).run s.world)).map
      fun r => { s with world := r.2, passphrase := req.newPassphrase }

/-- The run after an operation; one that fails is not part of a run. -/
def RecoveryOp.step (op : RecoveryOp) (s : RecoveryRun M) : RecoveryRun M := (op.exec s).getD s

/-- The operation returns `Ok`. -/
def RecoveryOp.ReturnsOk (op : RecoveryOp) (s : RecoveryRun M) : Prop := (op.exec s).isSome

/-- An operation that returns takes the run to its outcome. -/
theorem RecoveryOp.exec_eq_step {op : RecoveryOp} {s : RecoveryRun M} (h : op.ReturnsOk s) :
    op.exec s = some (op.step s) := by
  obtain ⟨t, ht⟩ := Option.isSome_iff_exists.mp h
  rw [step, ht, Option.getD_some]

/-- The first unlock has made the vault: there was no envelope key and no DEK before it. The
identity tables are in any state, since the maintenance after the unlock fills them. -/
def FirstUnlocked (passphrase : String) (s : RecoveryRun M) : Prop :=
  ∃ (w₀ w₁ : VaultWorld P) (result : UnlockResult), NoEnvelope w₀.db ∧ w₀.db.deks = [] ∧
    (VaultKeyStore.unlock passphrase).run w₀ = (.ok result, w₁) ∧
    s.world.vault.inner = w₁.inner ∧
    (∃ localDeviceIdentity devices vaultMembers users, s.world.vault.db =
      { w₁.db with localDeviceIdentity, devices, vaultMembers, users }) ∧
    s.world.recoveryKeys = [] ∧ s.passphrase = passphrase ∧ s.session = passphrase ∧
    s.minted = fun _ => none

/-- The envelope key of a first unlock is under the KEK of its passphrase. -/
theorem FirstUnlocked.envelopeVault {passphrase : String} {s : RecoveryRun M}
    (h : FirstUnlocked passphrase s) (settled : Prop) :
    s.passphrase ≠ "" ∧ ∃ root e, RootKeysFor s.world.vault.db s.passphrase root ∧
      EnvelopeVault settled s.minted root.kek e s.world.vault := by
  obtain ⟨w₀, w₁, result, hnone, hdeks, hunlock, hinner, ⟨_, _, _, _, hdb⟩, -, rfl, -, hminted⟩ := h
  obtain ⟨hpass, root, e, hroot, -, hvault⟩ :=
    envelopeVault_of_first_unlock settled hnone hdeks hunlock
  refine ⟨hpass, root, e, ?_, ?_⟩
  · rw [hdb]
    exact hroot
  · rw [hminted]
    apply hvault.congr
    · rw [hdb]
    · rw [hdb]
    · rw [hdb]
    · rw [hdb]
    · rw [hinner]
      exact hvault.slot

/-! ## A vault with an owner -/

/-- Symbolic phrases: a word repeated as often as the entropy says. -/
def symbolicPhrases : MnemonicScheme symbolic where
  Mnemonic := ℕ
  fromEntropy := id
  text n := String.ofList (List.replicate n 'a')
  parse text := if text.toList.all (· = 'a') then some text.toList.length else none
  recoveryKey n := .expand (.random n) "recovery"

theorem symbolicPhrases_lawful : symbolicPhrases.Lawful where
  parse_text := by
    intro (n : ℕ)
    have hlength : (List.replicate n 'a').length = n := List.length_replicate
    simp only [symbolicPhrases, String.toList_ofList, hlength]
    simp

/-- A new vault whose owner is logged in. -/
def ownedVault : RecoveryRun symbolicPhrases :=
  { world :=
      { access :=
          { vault := { newVault.world with
              db := { newVault.world.db with
                vaultMembers := [{ userId := "alice", vaultId := "local-vault-", role := "owner" }] } }
            sessions := [{ token := "alice-token", userId := "alice", deviceId := "laptop",
                           createdAt := 0, expiresAt := 86400 }] } }
    passphrase := "correct horse"
    session := "correct horse"
    minted := fun _ => none
    phrases := fun _ => none }

theorem ownedVault_firstUnlocked : FirstUnlocked "correct horse" ownedVault := by
  refine ⟨emptyWorld, ((unlock "correct horse").run emptyWorld).2, _, ?_, rfl, rfl, rfl, ?_, rfl, rfl,
    rfl, rfl⟩
  · intro v wrapped hv
    cases hv
  · exact ⟨newVault.world.db.localDeviceIdentity, [],
      [{ userId := "alice", vaultId := "local-vault-", role := "owner" }], [], rfl⟩

def owner : HeaderMap := .ofToken "alice-token"

end OmniDrive
