import OmniDrive.Crypto.Symbolic
import OmniDrive.Library.GuardedRuns
import OmniDrive.Vault.RotationOutcome

/-!
# Reading V1 chunks over the life of a vault

V1 chunks are encrypted under the vault key that the first passphrase derives. The KDF migration
seals a copy of that key under the envelope key, and later reads open the copy. A rotation to a
new passphrase changes the derived key, and both rotations change the envelope key, but neither
writes the copy again.
-/

namespace OmniDrive

open StatementProgram Tables

variable {P : Primitives}

namespace VaultKeyStore

/-! ## Runs -/

/-- The operations of a run. -/
inductive VaultOp where
  | lock
  | unlock
  | migrateKdfParamsIfNeeded
  | rotateVaultKey (newPassphrase : String)
  | rotateForRevocation
  deriving DecidableEq, Repr

/-- A world together with the passphrase in force. -/
structure VaultRun (P : Primitives) where
  world : VaultWorld P
  passphrase : String

namespace VaultOp

/-- Whether the operation returned, and the world it left. -/
def outcome (op : VaultOp) (s : VaultRun P) : Bool × VaultWorld P :=
  match op with
  | .lock => ofRun (VaultKeyStore.lock.run s.world)
  | .unlock => ofRun ((VaultKeyStore.unlock s.passphrase).run s.world)
  | .migrateKdfParamsIfNeeded =>
    ofRun ((VaultKeyStore.migrateKdfParamsIfNeeded s.passphrase).run s.world)
  | .rotateVaultKey newPassphrase =>
    ofRun ((VaultKeyStore.rotateVaultKey newPassphrase).run s.world)
  | .rotateForRevocation => ofRun (VaultKeyStore.rotateForRevocation.run s.world)
where
  /-- Forget the returned value. -/
  ofRun {α : Type} (r : Except VaultError α × VaultWorld P) : Bool × VaultWorld P :=
    (r.1.toBool, r.2)

/-- The passphrase in force after the operation. -/
def newPassphrase (op : VaultOp) (s : VaultRun P) : String :=
  match op with
  | .rotateVaultKey passphrase => if (op.outcome s).1 then passphrase else s.passphrase
  | _ => s.passphrase

def step (op : VaultOp) (s : VaultRun P) : VaultRun P :=
  ⟨(op.outcome s).2, op.newPassphrase s⟩

/-- The operation returns `Ok`. -/
def ReturnsOk (op : VaultOp) (s : VaultRun P) : Prop := (op.outcome s).1 = true

/-- The sealed copy of the V1 key, if the migration has made one. -/
def legacyReadKey (s : VaultRun P) : Option P.Sealed :=
  s.world.db.vaultState.bind (·.legacyReadKey)

/-- The operation keeps V1 chunks readable: it is no rotation to a passphrase, and it is a
revocation rotation only while no sealed copy exists. -/
def KeepsV1 (op : VaultOp) (s : VaultRun P) : Prop :=
  match op with
  | .rotateVaultKey _ => False
  | .rotateForRevocation => legacyReadKey s = none
  | _ => True

end VaultOp

/-- Whenever the vault is unlocked, V1 chunks are read under `k`. -/
def ReadsV1 (k : P.Key) (s : VaultRun P) : Prop :=
  s.world.inner ≠ none → (vaultKeyForV1Read.run s.world).1 = .ok k

/-! ## The invariant -/

/-- The envelope key stored in the vault row; none for a vault that has not got one yet. -/
def StoresEnvelope (root : RootKeys P) (v : VaultRecord P) : Option P.Key → Prop
  | some evk => v.encryptedVaultKey = some (.exact (wrapKey root.kek evk))
  | none => ∀ wrapped, v.encryptedVaultKey ≠ some (.exact wrapped)

/-- The sealed copy, if there is one, holds `k` under the stored envelope key, and the vault is
past its migration; otherwise the passphrase derives `k`. -/
def LegacyHolds (k : P.Key) (root : RootKeys P) (params : RootKdfParams) (v : VaultRecord P)
    (evk : Option P.Key) : Prop :=
  match v.legacyReadKey with
  | none => root.vaultKey = k
  | some blob => targetParameterSetVersion ≤ params.parameterSetVersion ∧ ∃ e nonce,
    evk = some e ∧
      blob = P.gcmSeal (deriveSubkey e legacyReadKeyInfo) nonce v.vaultId (.exact k)

/-- The keys in memory are those of the passphrase and the stored envelope key. -/
def SlotHolds (root : RootKeys P) (evk : Option P.Key) (inner : Option (UnlockedVaultKeys P)) :
    Prop :=
  inner = none ∨ ∃ e prev, evk = some e ∧
    inner = some ⟨root.masterKey, root.vaultKey, some e, prev⟩

/-- A vault with its V1 key `k`: the rows of the vault, the passphrase in force and the keys in
memory belong together, and no later draw repeats a key or a salt in use. -/
structure V1VaultWith (k : P.Key) (s : VaultRun P) (params : RootKdfParams) (root : RootKeys P)
    (v : VaultRecord P) (evk : Option P.Key) : Prop where
  nonempty : s.passphrase ≠ ""
  config : s.world.db.vaultConfig = some params.toRecord
  fits : params.Fits
  derives : deriveRootKeys P s.passphrase params = some root
  state : s.world.db.vaultState = some v
  stored : StoresEnvelope root v evk
  legacy : LegacyHolds k root params v evk
  slot : SlotHolds root evk s.world.inner
  freshSalt : ∀ n, s.world.draws ≤ n → P.randomSalt n ≠ params.salt
  freshKey : ∀ n e, s.world.draws ≤ n → evk = some e → P.randomKey n ≠ e

/-- A vault holding V1 chunks under `k`. -/
def V1Vault (k : P.Key) (s : VaultRun P) : Prop :=
  ∃ params root v evk, V1VaultWith k s params root v evk

section Read

variable {k : P.Key} {s : VaultRun P} {params : RootKdfParams} {root : RootKeys P}
variable {v : VaultRecord P} {evk : Option P.Key}

/-- Without a sealed copy, a V1 read uses the derived vault key. -/
theorem run_vaultKeyForV1Read_derived {w : VaultWorld P} {keys : UnlockedVaultKeys P}
    (hlegacy : w.db.vaultState.bind (·.legacyReadKey) = none) (hinner : w.inner = some keys) :
    (vaultKeyForV1Read.run w).1 = .ok keys.vaultKey := by
  have hkey := run_requireKey w
  rw [hinner] at hkey
  rw [vaultKeyForV1Read, Db.getLegacyReadKey, run_selectDb_bind, hlegacy, hkey]

/-- With a sealed copy, a V1 read opens it under the envelope key in memory. -/
theorem run_vaultKeyForV1Read_sealed {w : VaultWorld P} {keys : UnlockedVaultKeys P} {e : P.Key}
    {blob : P.Sealed} (hv : w.db.vaultState = some v) (hlegacy : v.legacyReadKey = some blob)
    (hinner : w.inner = some keys) (henv : keys.envelopeVaultKey = some e) :
    vaultKeyForV1Read.run w = (openLegacyReadKey e blob v.vaultId).run w := by
  have henvelope := run_requireEnvelopeKey w
  rw [hinner, Option.bind_some, henv] at henvelope
  rw [vaultKeyForV1Read, Db.getLegacyReadKey, run_selectDb_bind, hv, Option.bind_some, hlegacy]
  rw [Prog.run_bind_of_ok henvelope, Db.getVaultParams, run_selectDb_bind, hv]
  rfl

/-- A sealed copy opens under its own envelope key. -/
theorem run_openLegacyReadKey (ideal : P.Ideal) (e : P.Key) (nonce : ℕ) (vaultId : String)
    (w : VaultWorld P) :
    (openLegacyReadKey e (P.gcmSeal (deriveSubkey e legacyReadKeyInfo) nonce vaultId (.exact k))
      vaultId).run w = (.ok k, w) := by
  simp [openLegacyReadKey, decryptSecret, ideal.gcmOpen_gcmSeal]

/-- A sealed copy does not open under another envelope key. -/
theorem run_openLegacyReadKey_other (ideal : P.Ideal) {e e' : P.Key} (hne : e ≠ e') (nonce : ℕ)
    (aad vaultId : String) (w : VaultWorld P) :
    (openLegacyReadKey e' (P.gcmSeal (deriveSubkey e legacyReadKeyInfo) nonce aad (.exact k))
      vaultId).run w = (.error (.crypto .aead), w) := by
  have hkeys : deriveSubkey e legacyReadKeyInfo ≠ deriveSubkey e' legacyReadKeyInfo := by
    intro heq
    exact hne (ideal.hkdfExpand_inj heq).1
  simp [openLegacyReadKey, decryptSecret, ideal.gcmOpen_other _ _ _ _ hkeys]

/-- The invariant makes V1 chunks readable. -/
theorem readsV1_of_v1Vault (ideal : P.Ideal) (h : V1Vault k s) : ReadsV1 k s := by
  obtain ⟨params, root, v, evk, h⟩ := h
  intro hunlocked
  obtain hnone | ⟨e, prev, he, hinner⟩ := h.slot
  · exact absurd hnone hunlocked
  have hlegacy := h.legacy
  unfold LegacyHolds at hlegacy
  split at hlegacy
  · rename_i hcopy
    have hstate : s.world.db.vaultState.bind (·.legacyReadKey) = none := by
      rw [h.state, Option.bind_some, hcopy]
    rw [run_vaultKeyForV1Read_derived hstate hinner, hlegacy]
  · rename_i blob hcopy
    obtain ⟨-, e', nonce, he', hblob⟩ := hlegacy
    obtain rfl : e = e' := Option.some.inj (he.symm.trans he')
    rw [run_vaultKeyForV1Read_sealed h.state hcopy hinner rfl, hblob,
      run_openLegacyReadKey ideal]

end Read

/-! ## What each operation keeps -/

namespace VaultOp

theorem ofRun_fst {α : Type} {r : Except VaultError α × VaultWorld P} (h : (outcome.ofRun r).1) :
    ∃ a, r = (.ok a, r.2) := by
  obtain ⟨e | a, w⟩ := r
  · cases h
  · exact ⟨a, rfl⟩

end VaultOp

section Steps

variable {k : P.Key} {s : VaultRun P} {params : RootKdfParams} {root : RootKeys P}
variable {v : VaultRecord P} {evk : Option P.Key}

/-- A lock forgets the keys and nothing else. -/
theorem v1Vault_lock (h : V1Vault k s) : V1Vault k (VaultOp.lock.step s) := by
  obtain ⟨params, root, v, evk, h⟩ := h
  exact ⟨params, root, v, evk, h.nonempty, h.config, h.fits, h.derives, h.state, h.stored,
    h.legacy, Or.inl rfl, h.freshSalt, h.freshKey⟩

/-- An unlock puts the keys of the passphrase and the stored envelope key into memory; a vault
that had none gets a fresh one. -/
theorem v1Vault_unlock (ideal : P.Ideal) (h : V1Vault k s) : V1Vault k (VaultOp.unlock.step s) := by
  obtain ⟨params, root, v, evk, h⟩ := h
  have hroot : RootKeysFor s.world.db s.passphrase root :=
    ⟨_, params, h.config, toRootKdfParams_eq_ok.mpr ⟨rfl, h.fits⟩, h.derives⟩
  cases evk with
  | some e =>
    obtain ⟨w', hrun, hinner, hdraws, users, hdb⟩ := run_unlock_stored h.nonempty hroot h.state
      h.stored (ideal.unwrapKey_wrapKey root.kek e)
    have hstep : VaultOp.unlock.step s = ⟨w', s.passphrase⟩ := by
      have hworld : (VaultOp.unlock.outcome s).2 = w' := congrArg Prod.snd hrun
      rw [VaultOp.step, hworld]
      rfl
    rw [hstep]
    refine ⟨params, root, v, some e, h.nonempty, ?_, h.fits, h.derives, ?_, h.stored, h.legacy,
      Or.inr ⟨e, none, rfl, hinner⟩, fun n hn => h.freshSalt n (hdraws.trans hn),
      fun n e' hn => h.freshKey n e' (hdraws.trans hn)⟩
    · rw [hdb]
      exact h.config
    · rw [hdb]
      exact h.state
  | none =>
    obtain ⟨w', hrun, hinner, hdraws, users, hdb⟩ := run_unlock_upgrade h.nonempty hroot h.state
      h.stored
    have hstep : VaultOp.unlock.step s = ⟨w', s.passphrase⟩ := by
      have hworld : (VaultOp.unlock.outcome s).2 = w' := congrArg Prod.snd hrun
      rw [VaultOp.step, hworld]
      rfl
    rw [hstep]
    have hdraws' : s.world.draws + 1 ≤ w'.draws := hdraws
    -- a vault without an envelope key has no sealed copy either
    have hlegacy : v.legacyReadKey = none ∧ root.vaultKey = k := by
      have hcases := h.legacy
      unfold LegacyHolds at hcases
      split at hcases
      · rename_i hcopy
        exact ⟨hcopy, hcases⟩
      · obtain ⟨-, e, nonce, he, -⟩ := hcases
        cases he
    refine ⟨params, root, firstEnvelope root (P.randomKey s.world.draws) v,
      some (P.randomKey s.world.draws), h.nonempty, ?_, h.fits, h.derives, ?_, rfl, ?_,
      Or.inr ⟨_, none, rfl, hinner⟩,
      fun n hn => h.freshSalt n ((Nat.le_succ _).trans (hdraws'.trans hn)), ?_⟩
    · rw [hdb]
      exact h.config
    · rw [hdb]
    · simp only [LegacyHolds, firstEnvelope, hlegacy.1]
      exact hlegacy.2
    · intro n e hn he heq
      cases he
      have hsame := ideal.randomKey_inj heq
      have hlate : w'.draws ≤ n := hn
      omega

/-- A migration moves the V1 key from the passphrase into a sealed copy under the same envelope
key. -/
theorem v1Vault_migrate (ideal : P.Ideal) (h : V1Vault k s)
    (hok : VaultOp.migrateKdfParamsIfNeeded.ReturnsOk s) :
    V1Vault k (VaultOp.migrateKdfParamsIfNeeded.step s) := by
  obtain ⟨params, root, v, evk, h⟩ := h
  obtain ⟨outcome, hrun⟩ := VaultOp.ofRun_fst hok
  have hstep : VaultOp.migrateKdfParamsIfNeeded.step s =
      ⟨((migrateKdfParamsIfNeeded s.passphrase).run s.world).2, s.passphrase⟩ := rfl
  rw [hstep]
  obtain hsame | ⟨cfg, keys, e, hcfg, hneeds, hdevices, hinner, henv, hready⟩ :=
    migrate_ok_cases hrun
  · rw [hsame]
    exact ⟨params, root, v, evk, h⟩
  obtain ⟨outcome', r, d, hr, hd, hrun'⟩ := run_migrate hcfg hneeds (not_lt.mpr hdevices) hinner
    henv hready
  rw [hrun']
  -- the keys in memory are those of the invariant, and no copy exists yet
  obtain ⟨prev, rfl, rfl⟩ : ∃ prev, evk = some e ∧
      keys = ⟨root.masterKey, root.vaultKey, some e, prev⟩ := by
    obtain hnone | ⟨e', prev, he', hslot⟩ := h.slot
    · rw [hinner] at hnone
      cases hnone
    · rw [hinner] at hslot
      cases hslot
      cases henv
      exact ⟨prev, he', rfl⟩
  have hkey : root.vaultKey = k := by
    have hcases := h.legacy
    unfold LegacyHolds at hcases
    split at hcases
    · exact hcases
    · obtain ⟨hcurrent, -⟩ := hcases
      have hversion : cfg.parameterSetVersion = params.parameterSetVersion := by
        rw [h.config] at hcfg
        cases hcfg
        rfl
      rw [hversion] at hneeds
      simp only [needsKdfMigration, decide_eq_true_eq] at hneeds
      omega
  obtain ⟨nonce, hblob⟩ := hr.legacy v h.state
  rw [hkey] at hblob
  have hconfig : (Db.applyKdfMigration r.writes s.world.db).vaultConfig =
      some (targetKdfParams r.writes.newSalt).toRecord := by
    simp only [Db.applyKdfMigration, hcfg, Option.map_some, hr.params]
    rfl
  refine ⟨targetKdfParams r.writes.newSalt, r.newRoot,
    { v with
      masterKeySalt := r.writes.newSalt
      argon2Params := r.writes.newArgon2Params
      encryptedVaultKey := some (.exact r.writes.newEncryptedVaultKey)
      legacyReadKey := some r.writes.legacyReadKeyBlob },
    some e, h.nonempty, hconfig, targetKdfParams_fits _, hr.rootKeys, ?_, ?_, ?_,
    Or.inr ⟨e, none, rfl, rfl⟩, ?_, ?_⟩
  · simp only [Db.applyKdfMigration, h.state, Option.map_some]
  · simp only [StoresEnvelope, hr.vaultKey]
  · exact ⟨le_refl _, e, nonce, rfl, hblob⟩
  · intro n hn heq
    have hsalt : (targetKdfParams r.writes.newSalt).salt = P.randomSalt s.world.draws := hr.salt
    rw [hsalt] at heq
    have hsame := ideal.randomSalt_inj heq
    have hlate : d ≤ n := hn
    omega
  · intro n e' hn he'
    have hlate : d ≤ n := hn
    exact h.freshKey n e' (by omega) he'

/-- The world a revocation rotation leaves when it returns. -/
theorem rotateForRevocation_world (h : V1VaultWith k s params root v evk)
    (hok : VaultOp.rotateForRevocation.ReturnsOk s) :
    ∃ e devices, evk = some e ∧ VaultOp.rotateForRevocation.step s =
      ⟨{ db := { Db.enqueueOlder (generationOf s.world.db + 1)
            (replaceStoredKey root.masterKey (P.randomKey s.world.draws) s.world.db)
            with devices }
         inner := some (.withPreviousKey root.masterKey root.vaultKey
            (P.randomKey s.world.draws) e)
         draws := s.world.draws + 1
         now := s.world.now }, s.passphrase⟩ := by
  obtain ⟨result, hrun⟩ := VaultOp.ofRun_fst hok
  obtain ⟨keys, e, hinner, henv, hready⟩ := ready_of_rotateForRevocation_ok hrun
  obtain ⟨result', devices, hrun'⟩ := run_rotateForRevocation hinner henv hready
  obtain hnone | ⟨e', prev, he', hslot⟩ := h.slot
  · rw [hinner] at hnone
    cases hnone
  rw [hinner] at hslot
  cases hslot
  cases henv
  refine ⟨e, devices, he', ?_⟩
  have hworld : (VaultOp.rotateForRevocation.outcome s).2 =
      (rotateForRevocation.run s.world).2 := rfl
  rw [VaultOp.step, hworld, hrun']
  rfl

/-- The vault row a revocation rotation leaves. -/
def revokedRecord (masterKey newVaultKey : P.Key) (generation : ℤ) (v : VaultRecord P) :
    VaultRecord P :=
  { v with
    encryptedVaultKey := some (.exact (wrapKey (deriveKek masterKey) newVaultKey))
    vaultKeyGeneration := some generation }

/-- Without a sealed copy, a revocation rotation leaves the V1 key to the passphrase. -/
theorem v1Vault_rotateForRevocation (ideal : P.Ideal) (h : V1Vault k s)
    (hok : VaultOp.rotateForRevocation.ReturnsOk s) (hnone : VaultOp.legacyReadKey s = none) :
    V1Vault k (VaultOp.rotateForRevocation.step s) := by
  obtain ⟨params, root, v, evk, h⟩ := h
  obtain ⟨e, devices, he, hstep⟩ := rotateForRevocation_world h hok
  rw [hstep]
  have hcopy : v.legacyReadKey = none := by
    rw [VaultOp.legacyReadKey, h.state, Option.bind_some] at hnone
    exact hnone
  have hkey : root.vaultKey = k := by
    have hcases := h.legacy
    rw [LegacyHolds, hcopy] at hcases
    exact hcases
  refine ⟨params, root, revokedRecord root.masterKey (P.randomKey s.world.draws)
    (generationOf s.world.db + 1) v, some (P.randomKey s.world.draws), h.nonempty, h.config,
    h.fits, h.derives, ?_, ?_, ?_, Or.inr ⟨_, some e, rfl, rfl⟩, ?_, ?_⟩
  · change (s.world.db.vaultState.map _) = _
    rw [h.state]
    rfl
  · simp only [StoresEnvelope, revokedRecord, deriveRootKeys_kek h.derives]
  · simp only [LegacyHolds, revokedRecord, hcopy]
    exact hkey
  · intro n hn
    exact h.freshSalt n ((Nat.le_succ _).trans hn)
  · intro n e' hn he' heq
    cases he'
    have hsame := ideal.randomKey_inj heq
    have hlate : s.world.draws + 1 ≤ n := hn
    omega

/-- With a sealed copy, a revocation rotation leaves it under the old envelope key, where V1
reads no longer look. -/
theorem not_readsV1_rotateForRevocation (ideal : P.Ideal) (h : V1Vault k s)
    (hok : VaultOp.rotateForRevocation.ReturnsOk s) (hsome : VaultOp.legacyReadKey s ≠ none) :
    ¬ ReadsV1 k (VaultOp.rotateForRevocation.step s) := by
  obtain ⟨params, root, v, evk, h⟩ := h
  obtain ⟨e, devices, he, hstep⟩ := rotateForRevocation_world h hok
  rw [hstep]
  obtain ⟨blob, hcopy⟩ : ∃ blob, v.legacyReadKey = some blob := by
    rw [VaultOp.legacyReadKey, h.state, Option.bind_some] at hsome
    exact Option.ne_none_iff_exists'.mp hsome
  have hcases := h.legacy
  rw [LegacyHolds, hcopy] at hcases
  obtain ⟨-, e', nonce, he', hblob⟩ := hcases
  obtain rfl : e = e' := Option.some.inj (he.symm.trans he')
  have hne : e ≠ P.randomKey s.world.draws := (h.freshKey _ e (le_refl _) he).symm
  intro hreads
  have hread := hreads (by simp)
  have hrecord : ∀ w : VaultWorld P, w.db.vaultState = some (revokedRecord root.masterKey
      (P.randomKey s.world.draws) (generationOf s.world.db + 1) v) →
      w.inner = some (.withPreviousKey root.masterKey root.vaultKey
        (P.randomKey s.world.draws) e) →
      (vaultKeyForV1Read.run w).1 = .error (.crypto .aead) := by
    intro w hv hinner
    rw [run_vaultKeyForV1Read_sealed hv hcopy hinner rfl, hblob,
      run_openLegacyReadKey_other ideal hne]
  rw [hrecord _ ?_ rfl] at hread
  · cases hread
  · change (s.world.db.vaultState.map _) = _
    rw [h.state]
    rfl

/-- A rotation to a passphrase changes the derived key and the envelope key, and leaves a sealed
copy as it was: V1 reads fail or return another key. -/
theorem not_readsV1_rotateVaultKey (ideal : P.Ideal) (h : V1Vault k s) {passphrase : String}
    (hok : (VaultOp.rotateVaultKey passphrase).ReturnsOk s) :
    ¬ ReadsV1 k ((VaultOp.rotateVaultKey passphrase).step s) := by
  obtain ⟨params, root, v, evk, h⟩ := h
  obtain ⟨result, hrun⟩ := VaultOp.ofRun_fst hok
  obtain ⟨e, henv, hready⟩ := ready_of_rotateVaultKey_ok hrun
  obtain ⟨r, result', hr, hrun'⟩ := run_rotateVaultKey henv hready
  have hworld : ((VaultOp.rotateVaultKey passphrase).step s).world =
      ((rotateVaultKey passphrase).run s.world).2 := rfl
  intro hreads
  unfold ReadsV1 at hreads
  rw [hworld, hrun'] at hreads
  have hread := hreads (by simp)
  have hstate : (PreparedRotation.storeRows r.newGeneration r.rewrapped
      (r.replaceVault s.world.db)).vaultState = some (r.record v) := by
    rw [(PreparedRotation.storeRows_vault _ _ _).1, PreparedRotation.replaceVault, h.state]
    rfl
  rcases hcopy : v.legacyReadKey with _ | blob
  · have hderived := run_vaultKeyForV1Read_derived (w :=
      { db := PreparedRotation.storeRows r.newGeneration r.rewrapped (r.replaceVault s.world.db)
        inner := some r.keys
        draws := s.world.draws + 2
        now := s.world.now }) (by rw [hstate]; exact hcopy) rfl
    rw [hderived] at hread
    have hcases := h.legacy
    rw [LegacyHolds, hcopy] at hcases
    obtain ⟨m, hm, hroot⟩ := deriveRootKeys_eq_some.mp h.derives
    obtain ⟨m', hm', hroot'⟩ := deriveRootKeys_eq_some.mp hr.rootKeys
    have hkeys : r.newRootKeys.vaultKey = root.vaultKey := by
      rw [hcases]
      exact Except.ok.inj hread
    rw [hroot, hroot'] at hkeys
    obtain ⟨rfl, -⟩ := ideal.hkdfExpand_inj hkeys
    have hparams : params = r.newParams := (ideal.argon2_inj hm hm').2
    apply h.freshSalt s.world.draws (le_refl _)
    rw [hparams, hr.salt]
  · have hcases := h.legacy
    rw [LegacyHolds, hcopy] at hcases
    obtain ⟨-, e', nonce, he', hblob⟩ := hcases
    have hne : e' ≠ r.newVaultKey := by
      rw [hr.vaultKey]
      exact (h.freshKey _ e' (Nat.le_succ _) he').symm
    have hsealed := run_vaultKeyForV1Read_sealed (v := r.record v) (w :=
      { db := PreparedRotation.storeRows r.newGeneration r.rewrapped (r.replaceVault s.world.db)
        inner := some r.keys
        draws := s.world.draws + 2
        now := s.world.now }) hstate hcopy rfl rfl
    rw [hsealed, hblob, run_openLegacyReadKey_other ideal hne] at hread
    cases hread

end Steps

/-- Over a run of operations that all return, V1 chunks stay readable under the V1 key exactly
when the run contains no rotation to a passphrase and no revocation rotation behind the
migration. -/
theorem v1_readable_iff (ideal : P.Ideal) {k : P.Key} {ops : List VaultOp} {s : VaultRun P}
    (hs : V1Vault k s) (hok : GuardedRuns.guarded VaultOp.step VaultOp.ReturnsOk ops s) :
    (∀ t ∈ GuardedRuns.states VaultOp.step ops s, ReadsV1 k t) ↔
      GuardedRuns.guarded VaultOp.step VaultOp.KeepsV1 ops s := by
  apply GuardedRuns.good_iff_guarded VaultOp.step VaultOp.ReturnsOk VaultOp.KeepsV1 (V1Vault k)
    (ReadsV1 k) _ _ _ hs hok
  · intro t ht
    exact readsV1_of_v1Vault ideal ht
  · intro op t ht hop hkeeps
    cases op with
    | lock => exact v1Vault_lock ht
    | unlock => exact v1Vault_unlock ideal ht
    | migrateKdfParamsIfNeeded => exact v1Vault_migrate ideal ht hop
    | rotateVaultKey passphrase => exact hkeeps.elim
    | rotateForRevocation => exact v1Vault_rotateForRevocation ideal ht hop hkeeps
  · intro op t ht hop hbreaks
    cases op with
    | lock => exact absurd trivial hbreaks
    | unlock => exact absurd trivial hbreaks
    | migrateKdfParamsIfNeeded => exact absurd trivial hbreaks
    | rotateVaultKey passphrase => exact not_readsV1_rotateVaultKey ideal ht hop
    | rotateForRevocation => exact not_readsV1_rotateForRevocation ideal ht hop hbreaks

/-! ## A V1 vault -/

def v1Params : RootKdfParams :=
  { parameterSetVersion := 1, salt := [1], memoryCostKib := 65536, timeCost := 3, lanes := 1 }

def v1Root : RootKeys symbolic :=
  let master := SymbolicKey.argon2 "correct horse" v1Params
  ⟨master, .expand master vaultKeyInfo, .expand master kekV2Info⟩

def v1Record : VaultRecord symbolic :=
  { masterKeySalt := [1], argon2Params := v1Params.toArgon2Params, vaultId := "local-vault-01" }

/-- A locked V1 vault that has no envelope key yet, on a device with its private key. -/
def v1Start : VaultRun symbolic :=
  { world :=
      { db :=
          { vaultState := some v1Record
            vaultConfig := some v1Params.toRecord
            localDeviceIdentity := some
              { deviceId := "laptop"
                encryptedPrivateKey := some (Identity.encryptPrivateKey
                  (Identity.deriveIdentityKek v1Root.masterKey) 0 (SymbolicKey.random 0)) } }
        inner := none
        draws := 1 }
    passphrase := "correct horse" }

theorem v1Start_v1Vault : V1Vault v1Root.vaultKey v1Start := by
  refine ⟨v1Params, v1Root, v1Record, none, by decide, rfl, by decide, rfl, rfl, ?_, rfl,
    Or.inl rfl, ?_, ?_⟩
  · intro wrapped h
    cases h
  · intro n _ heq
    have hmem : (1 : UInt8) ∈ List.replicate n (0 : UInt8) := by
      have hsalt : List.replicate n (0 : UInt8) = [1] := heq
      rw [hsalt]
      exact List.mem_singleton_self 1
    exact absurd (List.eq_of_mem_replicate hmem) (by decide)
  · intro n e _ he
    cases he

/-- A run with a revocation rotation before the migration keeps V1 chunks readable. -/
theorem v1_readable_v1Start : V1Vault v1Root.vaultKey v1Start ∧
    ∀ t ∈ GuardedRuns.states VaultOp.step
      [.unlock, .rotateForRevocation, .lock, .unlock, .migrateKdfParamsIfNeeded, .lock, .unlock]
      v1Start, ReadsV1 v1Root.vaultKey t := by
  have hok : GuardedRuns.guarded VaultOp.step VaultOp.ReturnsOk
      [.unlock, .rotateForRevocation, .lock, .unlock, .migrateKdfParamsIfNeeded, .lock, .unlock]
      v1Start := ⟨rfl, rfl, rfl, rfl, rfl, rfl, rfl, trivial⟩
  refine ⟨v1Start_v1Vault, ?_⟩
  apply (v1_readable_iff symbolic_ideal v1Start_v1Vault hok).mpr
  exact ⟨trivial, rfl, trivial, trivial, trivial, trivial, trivial, trivial⟩

/-- A revocation rotation behind the migration ends V1 reads. -/
theorem v1_lost_after_revocation :
    ¬ ∀ (k : symbolic.Key) (ops : List VaultOp) (s : VaultRun symbolic), V1Vault k s →
      GuardedRuns.guarded VaultOp.step VaultOp.ReturnsOk ops s →
      ∀ t ∈ GuardedRuns.states VaultOp.step ops s, ReadsV1 k t := by
  intro hall
  have hok : GuardedRuns.guarded VaultOp.step VaultOp.ReturnsOk
      [.unlock, .migrateKdfParamsIfNeeded, .rotateForRevocation] v1Start := ⟨rfl, rfl, rfl, trivial⟩
  have hmigrated := v1Vault_migrate symbolic_ideal (v1Vault_unlock symbolic_ideal v1Start_v1Vault)
    hok.2.1
  have hcopy : (VaultOp.legacyReadKey (VaultOp.migrateKdfParamsIfNeeded.step
      (VaultOp.unlock.step v1Start))).isSome = true := rfl
  apply not_readsV1_rotateForRevocation symbolic_ideal hmigrated hok.2.2.1
  · intro hnone
    rw [hnone] at hcopy
    cases hcopy
  · apply hall _ _ v1Start v1Start_v1Vault hok
    exact .tail _ (.tail _ (.tail _ (.head _)))

end VaultKeyStore

end OmniDrive
