import OmniDrive.Library.LostWrites
import OmniDrive.Vault.CrashAtomicity
import OmniDrive.Vault.LazyRewrap

/-!
# Errors during a rotation after a revocation

A revocation rotation stores the wrapped new key before the statements that can still fail, and
replaces the key in the slot behind them. An error between the two leaves a stored key that the
key in memory does not correspond to, and every DEK is lost with the end of the session.
-/

namespace OmniDrive

open StatementProgram Tables

variable {P : Primitives}

namespace VaultKeyStore

/-! ## The parts of a revocation rotation -/

/-- What a revocation rotation has read and drawn before its first write. -/
structure PreparedRevocation (P : Primitives) where
  oldEnvelopeKey : P.Key
  masterKey : P.Key
  newVaultKey : P.Key
  newGeneration : ℤ
  vaultParams : Option (VaultRecord P)

/-- The statements of a revocation rotation before its first write. -/
def prepareRevocation : VaultProg P (PreparedRevocation P) := do
  let oldEnvelopeKey ← requireEnvelopeKey
  let masterKey ← requireMasterKey
  let oldGeneration ← currentVaultKeyGeneration
  let newVaultKey ← generateRandomKey
  let vaultParams ← Db.getVaultParams
  pure { oldEnvelopeKey, masterKey, newVaultKey, newGeneration := oldGeneration + 1, vaultParams }

namespace PreparedRevocation

/-- The first write: the new key, wrapped, with its generation. -/
def store (r : PreparedRevocation P) : VaultProg P Unit :=
  Db.rotateVaultKeyOnly (wrapKey (deriveKek r.masterKey) r.newVaultKey) r.newGeneration

/-- The statements between the first write and the write of the key slot. -/
def finish (r : PreparedRevocation P) :
    VaultProg P (UnlockedVaultKeys P × RevocationRotationResult) := do
  let result ← revokeDevices r.masterKey r.newVaultKey r.newGeneration r.vaultParams
  let vaultKey ← requireKey
  pure (.withPreviousKey r.masterKey vaultKey r.newVaultKey r.oldEnvelopeKey, result)

end PreparedRevocation

/-- A revocation rotation up to its write of the key slot. All its errors come from here. -/
def fallibleRevocation : VaultProg P (UnlockedVaultKeys P × RevocationRotationResult) := do
  let r ← prepareRevocation
  r.store
  r.finish

/-- A revocation rotation writes the key slot last. -/
theorem rotateForRevocation_phases :
    (rotateForRevocation : VaultProg P RevocationRotationResult) = (do
      let done ← fallibleRevocation
      writeSlot (some done.1)
      pure done.2) := by
  simp [rotateForRevocation_eq, revokeBody, fallibleRevocation, prepareRevocation,
    PreparedRevocation.store, PreparedRevocation.finish]

/-- An error of a revocation rotation is one of its fallible part, with the same state. -/
theorem run_fallibleRevocation_of_error {w w' : VaultWorld P} {e : VaultError}
    (h : rotateForRevocation.run w = (.error e, w')) :
    fallibleRevocation.run w = (.error e, w') := by
  rw [rotateForRevocation_phases] at h
  rcases hrun : (fallibleRevocation : VaultProg P _).run w with ⟨e' | done, t⟩
  · rw [Prog.run_bind_of_error hrun] at h
    cases h
    rfl
  · rw [Prog.run_bind_of_ok hrun] at h
    cases h

/-- What an error leaves that comes when `n` statements have taken effect. The `lost` ones among
them failed without stopping the rotation. -/
def failedAfter (lost : ℕ → Bool) (n : ℕ) (w : VaultWorld P) : VaultWorld P :=
  fallibleRevocation.cutLosing lost n w

/-- The errors that a revocation rotation returns by itself are among them. -/
theorem failedAfter_of_error {w w' : VaultWorld P} {e : VaultError}
    (h : rotateForRevocation.run w = (.error e, w')) :
    ∃ n, failedAfter (fun _ => false) n w = w' := by
  have hrun := run_fallibleRevocation_of_error h
  refine ⟨(fallibleRevocation : VaultProg P _).count w, ?_⟩
  rw [failedAfter, Prog.cutLosing_eq_cut fun _ _ => rfl, Prog.cut_of_count_le (le_refl _), hrun]

/-! ## What must survive an error -/

/-- The passphrase leads to the stored key, and that is the key in the slot. -/
structure InStep (passphrase : String) (root : RootKeys P) (evk : P.Key) (w : VaultWorld P) :
    Prop where
  nonempty : passphrase ≠ ""
  rootKeys : RootKeysFor w.db passphrase root
  stored : ∃ v, w.db.vaultState = some v ∧
    v.encryptedVaultKey = some (.exact (wrapKey root.kek evk))
  slot : ∃ keys, w.inner = some keys ∧ keys.masterKey = root.masterKey ∧
    keys.envelopeVaultKey = some evk

/-- The row unwraps in this session. -/
def UnwrapsNow (w : VaultWorld P) (row : WrappedDekRecord P) (dek : P.Key) : Prop :=
  (unwrapDekBytes row.wrappedDek).run w = (.ok dek, w)

/-- The row unwraps after lock and unlock. -/
def UnwrapsNext (passphrase : String) (w : VaultWorld P) (row : WrappedDekRecord P)
    (dek : P.Key) : Prop :=
  ∃ result w', (unlock passphrase).run (restarted w) = (.ok result, w') ∧ UnwrapsNow w' row dek

/-- A new DEK is stored in a row that unwraps now and after lock and unlock. -/
def Mints (passphrase : String) (w : VaultWorld P) : Prop :=
  ∀ inodeId, ∃ dekId dek w', (createPackDek inodeId).run w = (.ok (dekId, dek), w') ∧
    ∃ row ∈ w'.db.deks, row.dekId = dekId ∧ UnwrapsNow w' row dek ∧
      UnwrapsNext passphrase w' row dek

/-- Nothing that matters is worse in the second world than it was in the first. -/
structure Unharmed (passphrase : String) (w w' : VaultWorld P) : Prop where
  inStep : ∀ root evk, InStep passphrase root evk w → InStep passphrase root evk w'
  generation : generationOf w'.db = generationOf w.db
  kept : ∀ row ∈ w.db.deks, row ∈ w'.db.deks
  session : ∀ row ∈ w.db.deks, ∀ dek, UnwrapsNow w row dek → UnwrapsNow w' row dek
  nextSession : ∀ row ∈ w.db.deks, ∀ dek, UnwrapsNext passphrase w row dek →
    UnwrapsNext passphrase w' row dek
  minted : Mints passphrase w → Mints passphrase w'

/-! ## Reading in this session and the next -/

section Reading

variable {passphrase : String} {root : RootKeys P} {evk : P.Key} {w w' : VaultWorld P}

/-- After lock and unlock, the rows that unwrap are those under the stored key. -/
theorem unwrapsNext_iff {stored : P.Key} {v : VaultRecord P} (ideal : P.Ideal)
    (hpass : passphrase ≠ "") (hroot : RootKeysFor w.db passphrase root)
    (hv : w.db.vaultState = some v)
    (hkey : v.encryptedVaultKey = some (.exact (wrapKey root.kek stored)))
    (row : WrappedDekRecord P) (dek : P.Key) :
    UnwrapsNext passphrase w row dek ↔ OpensUnder stored row dek := by
  obtain ⟨w', hrun, hinner, -⟩ := run_unlock_stored (w := restarted w) hpass hroot hv hkey
    (ideal.unwrapKey_wrapKey _ _)
  have hreads : Reads (.withEnvelopeKey root.masterKey root.vaultKey stored) row dek ↔
      OpensUnder stored row dek := by
    simp [Reads, UnlockedVaultKeys.withEnvelopeKey]
  rw [← hreads, ← run_unwrapDekBytes hinner]
  constructor
  · rintro ⟨result, t, hrun', hnow⟩
    rw [hrun] at hrun'
    cases hrun'
    exact hnow
  · intro hnow
    exact ⟨_, w', hrun, hnow⟩

/-- In a vault that is in step, a new DEK unwraps now and after lock and unlock. -/
theorem InStep.mints (ideal : P.Ideal) (h : InStep passphrase root evk w) :
    Mints passphrase w := by
  intro inodeId
  obtain ⟨keys, hinner, -, henv⟩ := h.slot
  obtain ⟨v, hv, hkey⟩ := h.stored
  refine ⟨_, _, _, run_createPackDek inodeId hinner henv, ?_⟩
  have hopen : ∀ row : WrappedDekRecord P,
      row.wrappedDek = .exact (wrapKey evk (P.randomKey w.draws)) →
      OpensUnder evk row (P.randomKey w.draws) :=
    fun row hrow => ⟨_, hrow, ideal.unwrapKey_wrapKey _ _⟩
  refine ⟨_, List.mem_append_right _ (List.mem_singleton_self _), rfl, ?_, ?_⟩
  · apply (run_unwrapDekBytes (w := dekInserted evk inodeId _ w) hinner _ _).mpr
    exact ⟨evk, henv, Or.inl (hopen _ rfl)⟩
  · apply (unwrapsNext_iff (w := dekInserted evk inodeId _ w) ideal h.nonempty h.rootKeys hv hkey
      _ _).mpr
    exact hopen _ rfl

theorem InStep.of_same (h : InStep passphrase root evk w) (hdb : w'.db = w.db)
    (hinner : w'.inner = w.inner) : InStep passphrase root evk w' where
  nonempty := h.nonempty
  rootKeys := by
    rw [hdb]
    exact h.rootKeys
  stored := by
    rw [hdb]
    exact h.stored
  slot := by
    rw [hinner]
    exact h.slot

theorem Unharmed.refl (passphrase : String) (w : VaultWorld P) : Unharmed passphrase w w where
  inStep _ _ h := h
  generation := rfl
  kept _ h := h
  session _ _ _ h := h
  nextSession _ _ _ h := h
  minted h := h

/-- A vault that is in step is unharmed as long as its database and its key slot stay. -/
theorem InStep.unharmed (ideal : P.Ideal) (h : InStep passphrase root evk w)
    (hdb : w'.db = w.db) (hinner : w'.inner = w.inner) : Unharmed passphrase w w' := by
  obtain ⟨keys, hslot, -⟩ := h.slot
  obtain ⟨v, hv, hkey⟩ := h.stored
  have h' : InStep passphrase root evk w' := h.of_same hdb hinner
  have hslot' : w'.inner = some keys := by rw [hinner, hslot]
  have hv' : w'.db.vaultState = some v := by rw [hdb, hv]
  refine ⟨fun _ _ hin => hin.of_same hdb hinner, by rw [hdb], ?_, ?_, ?_, fun _ => h'.mints ideal⟩
  · intro row hrow
    rw [hdb]
    exact hrow
  · intro row _ dek hnow
    apply (run_unwrapDekBytes hslot' row dek).mpr
    exact (run_unwrapDekBytes hslot row dek).mp hnow
  · intro row _ dek hnext
    apply (unwrapsNext_iff ideal h.nonempty h'.rootKeys hv' hkey row dek).mpr
    exact (unwrapsNext_iff ideal h.nonempty h.rootKeys hv hkey row dek).mp hnext

end Reading

/-! ## Where an error comes -/

section Errors

variable {passphrase : String} {root : RootKeys P} {evk : P.Key} {w : VaultWorld P}
variable {lost : ℕ → Bool}

/-- The key slot and the row of the vault. -/
def StoredAndSlot (w t : VaultWorld P) : Prop :=
  t.inner = w.inner ∧ t.db.vaultState = w.db.vaultState ∧ t.db.vaultConfig = w.db.vaultConfig

/-- Nothing before the first write changes the database or the slot. -/
theorem keeps_prepareRevocation (w : VaultWorld P) :
    (prepareRevocation : VaultProg P (PreparedRevocation P)).Keeps fun t =>
      t.db = w.db ∧ t.inner = w.inner := by
  simp only [prepareRevocation, requireEnvelopeKey, requireMasterKey, readSlot, Prog.bind_assoc]
  apply (Prog.Keeps.query _).bind
  intro slot
  apply (Prog.Keeps.ofOption _ _).bind
  intro oldEnvelopeKey
  apply (Prog.Keeps.query _).bind
  intro slot
  apply (Prog.Keeps.ofOption _ _).bind
  intro masterKey
  have hgeneration : (currentVaultKeyGeneration : VaultProg P ℤ).Keeps fun t =>
      t.db = w.db ∧ t.inner = w.inner := (Prog.Keeps.query _).bind fun _ => trivial
  apply hgeneration.bind
  intro oldGeneration
  apply Prog.Keeps.bind (Prog.Keeps.execReturning _ fun _ h => h)
  intro newVaultKey
  apply (Prog.Keeps.query _).bind
  intro vaultParams
  trivial

/-- With an unlocked vault, five statements prepare a revocation rotation. -/
theorem run_prepareRevocation {keys : UnlockedVaultKeys P} (hinner : w.inner = some keys)
    (henv : keys.envelopeVaultKey = some evk) :
    (prepareRevocation : VaultProg P (PreparedRevocation P)).run w =
        (.ok ⟨evk, keys.masterKey, P.randomKey w.draws, generationOf w.db + 1, w.db.vaultState⟩,
          { w with draws := w.draws + 1 }) ∧
      (prepareRevocation : VaultProg P (PreparedRevocation P)).count w = 5 := by
  have henvelope := run_requireEnvelopeKey w
  have hmaster := run_requireMasterKey w
  simp only [hinner, Option.bind_some, henv] at henvelope hmaster
  constructor
  · rw [prepareRevocation, Prog.run_bind_of_ok henvelope, Prog.run_bind_of_ok hmaster]
    rfl
  · rw [prepareRevocation, Prog.count_bind_of_ok henvelope, Prog.count_bind_of_ok hmaster]
    simp [requireEnvelopeKey, requireMasterKey, readSlot, hinner, henv, currentVaultKeyGeneration,
      Db.getVaultParams, selectDb, generateRandomKey, draw]

/-- The device loop writes device rows only. -/
theorem keeps_rewrapDevices (ownerPrivate newVaultKey : P.Key) (newGeneration : ℤ)
    (devices : List (DeviceRecord P)) (w : VaultWorld P) :
    (rewrapDevices ownerPrivate newVaultKey newGeneration devices).Keeps (StoredAndSlot w) := by
  induction devices with
  | nil => trivial
  | cons dev rest ih =>
    unfold rewrapDevices
    have hrest : ∀ done : ℕ, (rewrapDevices ownerPrivate newVaultKey newGeneration rest >>=
        fun tail => (pure (done + tail) : VaultProg P ℕ)).Keeps (StoredAndSlot w) :=
      fun done => ih.bind fun _ => trivial
    split
    · split
      · exact hrest 0
      · split
        · apply Prog.Keeps.bind (Prog.Keeps.exec fun _ h => h)
          intro _
          exact hrest 1
        · exact hrest 0
    · exact hrest 0

theorem keeps_rewrapMembers (ownerPrivate newVaultKey : P.Key) (newGeneration : ℤ)
    (members : List VaultMemberRecord) (w : VaultWorld P) :
    (rewrapMembers ownerPrivate newVaultKey newGeneration members).Keeps (StoredAndSlot w) := by
  induction members with
  | nil => trivial
  | cons member rest ih =>
    unfold rewrapMembers
    apply (Prog.Keeps.query _).bind
    intro devices
    apply (keeps_rewrapDevices _ _ _ _ _).bind
    intro done
    exact ih.bind fun _ => trivial

/-- Nothing behind the first write changes the key slot or the rows of the vault. -/
theorem PreparedRevocation.keeps_finish (r : PreparedRevocation P) (w : VaultWorld P) :
    r.finish.Keeps (StoredAndSlot w) := by
  unfold PreparedRevocation.finish revokeDevices
  simp only [Prog.bind_assoc]
  have howner : (ownerPrivateKey r.masterKey).Keeps (StoredAndSlot w) := by
    apply Prog.Keeps.mapError
    apply Prog.Keeps.bind ((Prog.Keeps.query _).bind fun _ => Prog.Keeps.ofOption _ _)
    intro device
    exact (Prog.Keeps.ofOption _ _).bind fun _ => Prog.Keeps.ofExcept _
  apply howner.bind
  intro ownerPrivate
  apply (Prog.Keeps.ofOption _ _).bind
  intro vaultId
  apply (Prog.Keeps.query _).bind
  intro members
  apply (keeps_rewrapMembers _ _ _ _ _).bind
  intro devicesRewrapped
  apply Prog.Keeps.bind (Prog.Keeps.execReturning _ fun _ h => h)
  intro deksEnqueued
  rw [Prog.pure_eq_ret, Prog.ret_bind]
  exact (Prog.Keeps.bind ((Prog.Keeps.query _).bind fun _ => Prog.Keeps.ofOption _ _)
    fun _ => trivial)

/-- Before its first write, an error has changed neither the database nor the slot. -/
theorem failedAfter_of_le (hlost : ∀ i < 6, lost i = false) {n : ℕ} (hn : n ≤ 5) {evk : P.Key}
    (henv : w.inner.bind (·.envelopeVaultKey) = some evk) :
    (failedAfter lost n w).db = w.db ∧ (failedAfter lost n w).inner = w.inner := by
  obtain ⟨keys, hinner, henv⟩ := Option.bind_eq_some_iff.mp henv
  obtain ⟨-, hcount⟩ := run_prepareRevocation hinner henv
  rw [failedAfter, Prog.cutLosing_eq_cut fun i hi => hlost i (by omega), fallibleRevocation,
    Prog.cut_bind_of_le (by omega)]
  exact (keeps_prepareRevocation w).cut n ⟨rfl, rfl⟩

/-- A locked vault is left as it was. -/
theorem failedAfter_of_locked (hlocked : w.inner.bind (·.envelopeVaultKey) = none)
    (hlost : lost 0 = false) (n : ℕ) : failedAfter lost n w = w := by
  have hrun := run_requireEnvelopeKey w
  rw [hlocked] at hrun
  have hcount : (requireEnvelopeKey : VaultProg P P.Key).count w = 1 := by
    simp [requireEnvelopeKey, readSlot, hlocked]
  have hfirst : (requireEnvelopeKey : VaultProg P P.Key).Keeps (· = w) :=
    (Prog.Keeps.query _).bind fun _ => Prog.Keeps.ofOption _ _
  rw [failedAfter, fallibleRevocation, prepareRevocation, Prog.bind_assoc]
  rw [Prog.cutLosing_bind_of_error hrun]
  · exact hfirst.cut n rfl
  · intro i hi
    obtain rfl : i = 0 := by omega
    exact hlost

/-- Behind the first write, the stored key is the new one and the slot is the old one. -/
theorem failedAfter_add_six (hlost : ∀ i < 6, lost i = false) (n : ℕ)
    {keys : UnlockedVaultKeys P} (hinner : w.inner = some keys)
    (henv : keys.envelopeVaultKey = some evk) :
    StoredAndSlot (keyReplaced keys.masterKey w) (failedAfter lost (6 + n) w) := by
  obtain ⟨hrun, hcount⟩ := run_prepareRevocation hinner henv
  have hlost' : ∀ i < (prepareRevocation : VaultProg P (PreparedRevocation P)).count w,
      lost i = false := by
    intro i hi
    exact hlost i (by omega)
  have hsix : 6 + n = (prepareRevocation : VaultProg P (PreparedRevocation P)).count w + (n + 1) := by
    omega
  rw [failedAfter, fallibleRevocation, hsix, Prog.cutLosing_bind_of_ok hrun hlost']
  have hstore : lost ((prepareRevocation : VaultProg P (PreparedRevocation P)).count w + 0) =
      false := hlost _ (by omega)
  rw [PreparedRevocation.store, Db.rotateVaultKeyOnly, writeDb, Prog.exec, Prog.stmt_bind,
    Prog.cutLosing_stmt hstore]
  apply (PreparedRevocation.keeps_finish _ _).cutLosing
  exact ⟨rfl, rfl, rfl⟩

/-- Behind the first write, the passphrase leads to the new key. -/
theorem InStep.stored_failedAfter (h : InStep passphrase root evk w)
    (hlost : ∀ i < 6, lost i = false) (n : ℕ) :
    RootKeysFor (failedAfter lost (6 + n) w).db passphrase root ∧
      (failedAfter lost (6 + n) w).inner = w.inner ∧
      ∃ v, (failedAfter lost (6 + n) w).db.vaultState = some v ∧
        v.encryptedVaultKey = some (.exact (wrapKey root.kek (P.randomKey w.draws))) := by
  obtain ⟨keys, hinner, hmaster, henv⟩ := h.slot
  obtain ⟨v, hv, -⟩ := h.stored
  obtain ⟨hslot, hstate, hconfig⟩ := failedAfter_add_six hlost n hinner henv
  refine ⟨?_, hslot, ?_⟩
  · obtain ⟨config, params, hc, hrest⟩ := h.rootKeys
    refine ⟨config, params, ?_, hrest⟩
    rw [hconfig]
    exact hc
  · rw [hstate]
    have hreplaced := vaultState_replaceStoredKey h.rootKeys hv (P.randomKey w.draws)
    rw [← hmaster] at hreplaced
    exact ⟨_, hreplaced, rfl⟩

/-- Behind the first write, lock and unlock lose every DEK under the key in memory. -/
theorem not_unwrapsNext_failedAfter (ideal : P.Ideal) (h : InStep passphrase root evk w)
    (hfresh : P.randomKey w.draws ≠ evk) (hlost : ∀ i < 6, lost i = false) (n : ℕ)
    {row : WrappedDekRecord P} {dek : P.Key} (hrow : WrappedUnder evk row dek) (dek' : P.Key) :
    ¬ UnwrapsNext passphrase (failedAfter lost (6 + n) w) row dek' := by
  obtain ⟨hroot, -, v, hv, hkey⟩ := h.stored_failedAfter hlost n
  intro hnext
  have hopen := (unwrapsNext_iff ideal h.nonempty hroot hv hkey row dek').mp hnext
  exact hfresh ((hrow.opensUnder_iff ideal).mp hopen).1.symm

/-- Behind the first write, the stored key is not the one in memory. -/
theorem not_unharmed_failedAfter (ideal : P.Ideal) (h : InStep passphrase root evk w)
    (hfresh : P.randomKey w.draws ≠ evk) (hlost : ∀ i < 6, lost i = false) (n : ℕ) :
    ¬ Unharmed passphrase w (failedAfter lost (6 + n) w) := by
  obtain ⟨-, -, v, hv, hkey⟩ := h.stored_failedAfter hlost n
  intro hunharmed
  obtain ⟨v', hv', hkey'⟩ := (hunharmed.inStep root evk h).stored
  rw [hv] at hv'
  cases hv'
  rw [hkey] at hkey'
  have hwrapped : wrapKey root.kek (P.randomKey w.draws) = wrapKey root.kek evk :=
    Sized.exact.inj (Option.some.inj hkey')
  have hopen := ideal.unwrapKey_wrapKey root.kek evk
  rw [← hwrapped] at hopen
  exact hfresh (ideal.unwrapKey_wrapKey_eq_ok.mp hopen).2

/-- An error of a revocation rotation is harmless exactly in a locked vault or when it comes
before the new key is stored. The updates of device rows, the only writes whose errors are not
returned, come later. -/
theorem failed_revocation_unharmed_iff (ideal : P.Ideal)
    (h : w.inner.bind (·.envelopeVaultKey) = none ∨
      InStep passphrase root evk w ∧ P.randomKey w.draws ≠ evk)
    (hlost : ∀ i < 6, lost i = false) (n : ℕ) :
    Unharmed passphrase w (failedAfter lost n w) ↔
      w.inner.bind (·.envelopeVaultKey) = none ∨ n ≤ 5 := by
  rcases h with hlocked | ⟨hstep, hfresh⟩
  · rw [failedAfter_of_locked hlocked (hlost 0 (by omega)) n]
    exact iff_of_true (Unharmed.refl _ _) (Or.inl hlocked)
  obtain ⟨keys, hinner, -, henv⟩ := hstep.slot
  have hunlocked : w.inner.bind (·.envelopeVaultKey) = some evk := by rw [hinner]; exact henv
  by_cases hn : n ≤ 5
  · obtain ⟨hdb, hslot⟩ := failedAfter_of_le hlost hn hunlocked
    exact iff_of_true (hstep.unharmed ideal hdb hslot) (Or.inr hn)
  · obtain ⟨m, rfl⟩ : ∃ m, n = 6 + m := ⟨n - 6, by omega⟩
    apply iff_of_false (not_unharmed_failedAfter ideal hstep hfresh hlost m)
    rw [hunlocked, not_or]
    exact ⟨nofun, hn⟩

end Errors

/-! ## A vault without a device key -/

theorem oneDekVault_inStep :
    InStep "correct horse" oneDekRoot SymbolicKey.zero oneDekVault where
  nonempty := oneDekVault_open.nonempty
  rootKeys := ⟨_, oneDekParams, rfl, rfl, rfl⟩
  stored := oneDekVault_open.stored
  slot := ⟨_, rfl, rfl, rfl⟩

/-- Errors on either side of the write of the new key. -/
theorem failed_revocation_oneDekVault :
    Unharmed "correct horse" oneDekVault (failedAfter (fun _ => false) 5 oneDekVault) ∧
      ¬ Unharmed "correct horse" oneDekVault (failedAfter (fun _ => false) 6 oneDekVault) := by
  have hfresh : symbolic.randomKey oneDekVault.draws ≠ SymbolicKey.zero := nofun
  have hiff := fun n => failed_revocation_unharmed_iff symbolic_ideal
    (Or.inr ⟨oneDekVault_inStep, hfresh⟩) (fun _ _ => rfl) n
  have hlocked : oneDekVault.inner.bind (·.envelopeVaultKey) ≠ none := nofun
  constructor
  · exact (hiff 5).mpr (Or.inr (le_refl 5))
  · intro hunharmed
    rcases (hiff 6).mp hunharmed with h | h
    · exact hlocked h
    · omega

/-- Without a device key, a revocation rotation fails and leaves the vault with a stored key
under which nothing is wrapped. -/
theorem failed_revocation_harms :
    ¬ ∀ (passphrase : String) (root : RootKeys symbolic) (evk : symbolic.Key)
      (w w' : VaultWorld symbolic) (e : VaultError), InStep passphrase root evk w →
      rotateForRevocation.run w = (.error e, w') → Unharmed passphrase w w' := by
  intro hall
  have hinner : oneDekVault.inner = some (.withEnvelopeKey oneDekRoot.masterKey
      oneDekRoot.vaultKey SymbolicKey.zero) := rfl
  have hready : ¬ RevocationReady oneDekRoot.masterKey oneDekVault.db := by
    rintro ⟨⟨device, blob, key, hdevice, -⟩, -⟩
    cases hdevice
  obtain ⟨e, hrun⟩ := run_rotateForRevocation_error hinner rfl hready
  have hunharmed := hall _ _ _ _ _ e oneDekVault_inStep hrun
  obtain ⟨v, hv, hkey⟩ := (hunharmed.inStep _ _ oneDekVault_inStep).stored
  cases hv
  cases hkey

end VaultKeyStore

end OmniDrive
