import OmniDrive.Crypto.Symbolic
import OmniDrive.Vault.UnlockOutcome

/-!
# Unlocks that destroy key material

An unlock stores a fresh envelope key wherever it finds none of forty bytes. A stored key of another
length is overwritten, and a vault that has data but no envelope key takes any passphrase. An unlock
also writes the rows that are missing before it looks at the passphrase.
-/

namespace OmniDrive

open StatementProgram

variable {P : Primitives}

namespace VaultKeyStore

/-! ## The rows that an unlock finds or writes -/

/-- The KDF parameters of an unlock: those of the row, or fresh ones. -/
def kdfParams (w : VaultWorld P) : Except VaultError RootKdfParams :=
  match w.db.vaultConfig with
  | some config => toRootKdfParams config
  | none => .ok (targetKdfParams (P.randomSalt w.draws))

/-- The KDF accepts the parameters of the unlock. -/
def Derives (w : VaultWorld P) (passphrase : String) : Prop :=
  ∃ params root, kdfParams w = .ok params ∧ deriveRootKeys P passphrase params = some root

/-- The stored envelope key, of any length. -/
def storedKey (w : VaultWorld P) : Option (Sized P.Wrapped) :=
  w.db.vaultState.bind (·.encryptedVaultKey)

/-- The world once the row of `vault_config` is there. -/
def withConfig (w : VaultWorld P) : VaultWorld P :=
  match w.db.vaultConfig with
  | some _ => w
  | none =>
    { w with
      db.vaultConfig := some (targetKdfParams (P.randomSalt w.draws)).toRecord
      draws := w.draws + 1 }

/-- The world once the row of `vault_state` is there as well. -/
def withParams (config : RootKdfParams) (w : VaultWorld P) : VaultWorld P :=
  match w.db.vaultState with
  | some _ => w
  | none =>
    { w with
      db.vaultState := some
        { masterKeySalt := P.randomSalt w.draws
          argon2Params := config.toArgon2Params
          vaultId := "local-vault-" ++ hexPrefix config.salt }
      draws := w.draws + 1 }

/-! ## What is asked of an unlock -/

/-- The passphrase in force, if there is one: the only one that opens the stored key. -/
def InForce (w : VaultWorld P) (owner : Option String) : Prop :=
  ∀ passphrase root wrapped evk, RootKeysFor w.db passphrase root →
    storedKey w = some (.exact wrapped) → unwrapKey root.kek wrapped = .ok evk →
      owner = some passphrase

/-- A stored key is never replaced, and a passphrase other than the one in force is refused and
changes neither the vault nor the key slot. -/
structure KeepsKeyMaterial (owner : Option String) (passphrase : String) (w : VaultWorld P) :
    Prop where
  stored : ∀ blob, storedKey w = some blob →
    storedKey ((unlock passphrase).run w).2 = some blob
  refused : owner.isSome = true → owner ≠ some passphrase →
    (∃ e, ((unlock passphrase).run w).1 = .error e) ∧
      ((unlock passphrase).run w).2.db.vaultState = w.db.vaultState ∧
      ((unlock passphrase).run w).2.db.vaultConfig = w.db.vaultConfig ∧
      ((unlock passphrase).run w).2.inner = w.inner

/-- Both rows are there, and the KDF refuses the parameters or the stored key has its length. -/
def Guarded (passphrase : String) (w : VaultWorld P) : Prop :=
  w.db.vaultConfig.isSome = true ∧ w.db.vaultState.isSome = true ∧
    (¬ Derives w passphrase ∨ ∃ wrapped, storedKey w = some (.exact wrapped))

/-- The unlock fails before its first write, it is guarded, or its passphrase is the one in force and
no key of another length is stored where it gets to. -/
def Harmless (owner : Option String) (passphrase : String) (w : VaultWorld P) : Prop :=
  passphrase = "" ∨ (∃ e, kdfParams w = .error e) ∨ Guarded passphrase w ∨
    (owner = none ∨ owner = some passphrase) ∧
      (Derives w passphrase → ∀ bytes, storedKey w ≠ some (.other bytes))

section Prepare

variable {w : VaultWorld P} {passphrase : String} {params : RootKdfParams}

theorem run_ensureVaultConfig (h : kdfParams w = .ok params) :
    ∃ initialized, ensureVaultConfig.run w = (.ok (params, initialized), withConfig w) := by
  unfold kdfParams at h
  unfold withConfig
  cases hconfig : w.db.vaultConfig with
  | some config =>
    rw [hconfig] at h
    refine ⟨false, ?_⟩
    simp only [] at h
    simp [ensureVaultConfig, Db.getVaultConfig, hconfig, h]
  | none =>
    rw [hconfig] at h
    obtain rfl := Except.ok.inj h
    refine ⟨true, ?_⟩
    simp [ensureVaultConfig, Db.getVaultConfig, hconfig, randomSalt, Db.setVaultConfig]

theorem run_ensureLocalVaultParams (params : RootKdfParams) (w : VaultWorld P) :
    ∃ created, (ensureLocalVaultParams params).run w = (.ok created, withParams params w) := by
  unfold withParams
  cases hstate : w.db.vaultState with
  | some v =>
    refine ⟨false, ?_⟩
    simp [ensureLocalVaultParams, Db.getVaultParams, hstate]
  | none =>
    refine ⟨true, ?_⟩
    simp [ensureLocalVaultParams, Db.getVaultParams, hstate, randomSalt, Db.setVaultParams]

/-- Parameters that cannot be read end the unlock before its first write. -/
theorem run_unlock_unreadable {e : VaultError} (hpass : passphrase ≠ "")
    (h : kdfParams w = .error e) : (unlock passphrase).run w = (.error e, w) := by
  unfold kdfParams at h
  cases hconfig : w.db.vaultConfig with
  | some config =>
    rw [hconfig] at h
    simp only [] at h
    simp [unlock, hpass, ensureVaultConfig, Db.getVaultConfig, hconfig, h]
  | none =>
    rw [hconfig] at h
    cases h

/-- A KDF that refuses the parameters ends the unlock after the missing rows have been written. -/
theorem run_unlock_underived (hpass : passphrase ≠ "") (hparams : kdfParams w = .ok params)
    (hderive : deriveRootKeys P passphrase params = none) :
    (unlock passphrase).run w = (.error (.crypto .argon2), withParams params (withConfig w)) := by
  obtain ⟨initialized, hconfig⟩ := run_ensureVaultConfig hparams
  obtain ⟨created, hstate⟩ := run_ensureLocalVaultParams params (withConfig w)
  rw [unlock, if_neg hpass, Prog.run_bind_of_ok hconfig]
  dsimp only
  rw [Prog.run_bind_of_ok hstate, hderive]
  rfl

/-- The end of an unlock on the prepared world. -/
theorem run_unlock_prepared {root : RootKeys P} (hpass : passphrase ≠ "")
    (hparams : kdfParams w = .ok params) (hderive : deriveRootKeys P passphrase params = some root) :
    ∃ initialized, (unlock passphrase).run w = (do
      let unlocked ← unlockKeys root (withParams params (withConfig w)).db.vaultState
      writeSlot (some unlocked)
      let pairs ← Db.usersWithPlaintextRefreshToken
      sealPlaintextTokens pairs
      pure ({ initialized, unlocked := true } : UnlockResult)).run
        (withParams params (withConfig w)) := by
  obtain ⟨initialized, hconfig⟩ := run_ensureVaultConfig hparams
  obtain ⟨created, hstate⟩ := run_ensureLocalVaultParams params (withConfig w)
  refine ⟨initialized, ?_⟩
  rw [unlock, if_neg hpass, Prog.run_bind_of_ok hconfig]
  dsimp only
  rw [Prog.run_bind_of_ok hstate, hderive]
  rfl

/-- The rows that an unlock writes hold no envelope key. -/
theorem storedKey_prepared (params : RootKdfParams) (w : VaultWorld P) :
    storedKey (withParams params (withConfig w)) = storedKey w := by
  have hconfig : (withConfig w).db.vaultState = w.db.vaultState := by
    unfold withConfig
    split <;> rfl
  unfold storedKey withParams
  rw [hconfig]
  cases hstate : w.db.vaultState with
  | some v => simp only [hconfig, hstate]
  | none => rfl

/-- There is a row of `vault_state` once both have been written. -/
theorem exists_vaultState (params : RootKdfParams) (w : VaultWorld P) :
    ∃ v, (withParams params w).db.vaultState = some v := by
  unfold withParams
  cases hstate : w.db.vaultState with
  | some v => exact ⟨v, hstate⟩
  | none => exact ⟨_, rfl⟩

/-- Nothing is written where both rows are there, and otherwise the rows change. -/
theorem prepared_eq_iff (params : RootKdfParams) (w : VaultWorld P) :
    ((withParams params (withConfig w)).db.vaultState = w.db.vaultState ∧
      (withParams params (withConfig w)).db.vaultConfig = w.db.vaultConfig) ↔
      w.db.vaultConfig.isSome = true ∧ w.db.vaultState.isSome = true := by
  unfold withParams withConfig
  cases hconfig : w.db.vaultConfig <;> cases hstate : w.db.vaultState <;> simp_all

/-- Neither does the key slot change before the passphrase has been accepted. -/
theorem inner_prepared (params : RootKdfParams) (w : VaultWorld P) :
    (withParams params (withConfig w)).inner = w.inner := by
  unfold withParams withConfig
  cases w.db.vaultConfig <;> dsimp only <;> split <;> rfl

/-- What an unlock does once the KDF has accepted the passphrase: it opens the stored key, fails to
open it, or stores a fresh one. -/
theorem unlock_outcome {root : RootKeys P} (hpass : passphrase ≠ "")
    (hparams : kdfParams w = .ok params) (hderive : deriveRootKeys P passphrase params = some root) :
    (∃ wrapped evk r, storedKey w = some (.exact wrapped) ∧ unwrapKey root.kek wrapped = .ok evk ∧
      ((unlock passphrase).run w).1 = .ok r ∧
      storedKey ((unlock passphrase).run w).2 = storedKey w) ∨
    (∃ wrapped e, storedKey w = some (.exact wrapped) ∧
      (unlock passphrase).run w = (.error (.crypto e), withParams params (withConfig w))) ∨
    ((∀ wrapped, storedKey w ≠ some (.exact wrapped)) ∧
      (∃ r, ((unlock passphrase).run w).1 = .ok r) ∧
      ∃ fresh, storedKey ((unlock passphrase).run w).2 = some (.exact fresh)) := by
  obtain ⟨initialized, hrun⟩ := run_unlock_prepared hpass hparams hderive
  obtain ⟨v, hv⟩ := exists_vaultState params (withConfig w)
  have hstored : v.encryptedVaultKey = storedKey w := by
    rw [← storedKey_prepared params w, storedKey, hv]
    rfl
  rw [hv] at hrun
  by_cases hexact : ∃ wrapped, storedKey w = some (.exact wrapped)
  · obtain ⟨wrapped, hwrapped⟩ := hexact
    have hkey : v.encryptedVaultKey = some (.exact wrapped) := hstored.trans hwrapped
    cases hunwrap : unwrapKey root.kek wrapped with
    | ok evk =>
      obtain ⟨w', hfinish, hsame⟩ := run_unlock_finish
        (.withEnvelopeKey root.masterKey root.vaultKey evk) initialized
        (withParams params (withConfig w))
      have hkeys : (unlockKeys root (some v)).run (withParams params (withConfig w)) =
          (.ok (.withEnvelopeKey root.masterKey root.vaultKey evk),
            withParams params (withConfig w)) := by
        simp [unlockKeys, hkey, hunwrap]
      rw [Prog.run_bind_of_ok hkeys, hfinish] at hrun
      obtain ⟨-, -, users, hdb⟩ := hsame
      refine .inl ⟨wrapped, evk, _, hwrapped, hunwrap, congrArg Prod.fst hrun, ?_⟩
      rw [hrun, storedKey, hdb]
      exact storedKey_prepared params w
    | error e =>
      have hkeys : (unlockKeys root (some v)).run (withParams params (withConfig w)) =
          (.error (.crypto e), withParams params (withConfig w)) := by
        simp [unlockKeys, hkey, hunwrap]
      rw [Prog.run_bind_of_error hkeys] at hrun
      exact .inr (.inl ⟨wrapped, e, hwrapped, hrun⟩)
  · have hnone : ∀ wrapped, storedKey w ≠ some (.exact wrapped) := fun wrapped h =>
      hexact ⟨wrapped, h⟩
    have hkeys := run_unlockKeys_fresh root hv fun wrapped h => hnone wrapped (hstored.symm.trans h)
    rw [Prog.run_bind_of_ok hkeys] at hrun
    obtain ⟨w', hfinish, -, -, users, hdb⟩ := run_unlock_finish
      (.withEnvelopeKey root.masterKey root.vaultKey
        (P.randomKey (withParams params (withConfig w)).draws)) initialized
      { db := { (withParams params (withConfig w)).db with
          vaultState := some
            (firstEnvelope root (P.randomKey (withParams params (withConfig w)).draws) v) }
        inner := (withParams params (withConfig w)).inner
        draws := (withParams params (withConfig w)).draws + 1
        now := (withParams params (withConfig w)).now }
    rw [hfinish] at hrun
    refine .inr (.inr ⟨hnone, ⟨_, congrArg Prod.fst hrun⟩,
      wrapKey root.kek (P.randomKey (withParams params (withConfig w)).draws), ?_⟩)
    rw [hrun, storedKey, hdb]
    rfl

end Prepare

section Outcome

variable {w : VaultWorld P} {passphrase : String} {owner : Option String}

theorem derives_iff {params : RootKdfParams} (h : kdfParams w = .ok params) :
    Derives w passphrase ↔ ∃ root, deriveRootKeys P passphrase params = some root := by
  unfold Derives
  rw [h]
  constructor
  · rintro ⟨params', root, hsame, hroot⟩
    obtain rfl := Except.ok.inj hsame
    exact ⟨root, hroot⟩
  · rintro ⟨root, hroot⟩
    exact ⟨params, root, rfl, hroot⟩

/-- A stored key stays unless the unlock gets to one of another length. -/
theorem stored_iff : (∀ blob, storedKey w = some blob →
      storedKey ((unlock passphrase).run w).2 = some blob) ↔
    passphrase = "" ∨ (∃ e, kdfParams w = .error e) ∨
      (Derives w passphrase → ∀ bytes, storedKey w ≠ some (.other bytes)) := by
  by_cases hpass : passphrase = ""
  · have hrun : (unlock passphrase).run w = (.error .emptyPassphrase, w) := by
      rw [unlock, if_pos hpass]
      rfl
    rw [hrun]
    exact ⟨fun _ => .inl hpass, fun _ blob h => h⟩
  cases hparams : kdfParams w with
  | error e =>
    rw [run_unlock_unreadable hpass hparams]
    exact ⟨fun _ => .inr (.inl ⟨e, rfl⟩), fun _ blob h => h⟩
  | ok params =>
    have hread : ¬ ∃ e, (Except.ok params : Except VaultError RootKdfParams) = .error e := by
      rintro ⟨e, h⟩
      cases h
    rw [derives_iff hparams]
    simp only [hpass, hread, false_or]
    cases hderive : deriveRootKeys P passphrase params with
    | none =>
      rw [run_unlock_underived hpass hparams hderive, storedKey_prepared]
      refine ⟨fun _ h => ?_, fun _ blob h => h⟩
      obtain ⟨root, hroot⟩ := h
      cases hroot
    | some root =>
      have hthere : (∃ r, some root = some r) := ⟨root, rfl⟩
      simp only [hthere, forall_const]
      rcases unlock_outcome hpass hparams hderive with ⟨wrapped, -, -, hexact, -, -, hsame⟩ |
        ⟨wrapped, e, hexact, hrun⟩ | ⟨hnone, -, fresh, hfresh⟩
      · rw [hsame]
        refine ⟨fun _ bytes hother => ?_, fun _ blob h => h⟩
        rw [hexact] at hother
        cases hother
      · rw [hrun, storedKey_prepared]
        refine ⟨fun _ bytes hother => ?_, fun _ blob h => h⟩
        rw [hexact] at hother
        cases hother
      · rw [hfresh]
        constructor
        · intro h bytes hother
          cases h _ hother
        · intro h blob hblob
          cases blob with
          | exact wrapped => exact absurd hblob (hnone wrapped)
          | other bytes => exact absurd hblob (h bytes)

/-- A passphrase other than the one in force is refused without a trace where the unlock is
guarded. -/
theorem refused_iff (hforce : InForce w owner) (hother : owner ≠ some passphrase) :
    ((∃ e, ((unlock passphrase).run w).1 = .error e) ∧
      ((unlock passphrase).run w).2.db.vaultState = w.db.vaultState ∧
      ((unlock passphrase).run w).2.db.vaultConfig = w.db.vaultConfig ∧
      ((unlock passphrase).run w).2.inner = w.inner) ↔
    passphrase = "" ∨ (∃ e, kdfParams w = .error e) ∨ Guarded passphrase w := by
  by_cases hpass : passphrase = ""
  · have hrun : (unlock passphrase).run w = (.error .emptyPassphrase, w) := by
      rw [unlock, if_pos hpass]
      rfl
    rw [hrun]
    exact ⟨fun _ => .inl hpass, fun _ => ⟨⟨_, rfl⟩, rfl, rfl, rfl⟩⟩
  cases hparams : kdfParams w with
  | error e =>
    rw [run_unlock_unreadable hpass hparams]
    exact ⟨fun _ => .inr (.inl ⟨e, rfl⟩), fun _ => ⟨⟨e, rfl⟩, rfl, rfl, rfl⟩⟩
  | ok params =>
    have hread : ¬ ∃ e, (Except.ok params : Except VaultError RootKdfParams) = .error e := by
      rintro ⟨e, h⟩
      cases h
    have hprepared : ∀ e : VaultError, (unlock passphrase).run w =
        (.error e, withParams params (withConfig w)) →
        (((∃ e, ((unlock passphrase).run w).1 = .error e) ∧
          ((unlock passphrase).run w).2.db.vaultState = w.db.vaultState ∧
          ((unlock passphrase).run w).2.db.vaultConfig = w.db.vaultConfig ∧
          ((unlock passphrase).run w).2.inner = w.inner) ↔
        w.db.vaultConfig.isSome = true ∧ w.db.vaultState.isSome = true) := by
      intro e hrun
      rw [hrun, ← prepared_eq_iff params w]
      constructor
      · rintro ⟨-, hstate, hconfig, -⟩
        exact ⟨hstate, hconfig⟩
      · rintro ⟨hstate, hconfig⟩
        exact ⟨⟨e, rfl⟩, hstate, hconfig, inner_prepared params w⟩
    simp only [hpass, hread, false_or, Guarded, derives_iff hparams]
    cases hderive : deriveRootKeys P passphrase params with
    | none =>
      have hrefuses : ¬ ∃ root, (none : Option (RootKeys P)) = some root := by
        rintro ⟨root, h⟩
        cases h
      rw [hprepared _ (run_unlock_underived hpass hparams hderive)]
      simp only [hrefuses, not_false_eq_true, true_or, and_true]
    | some root =>
      have hthere : (∃ r, some root = some r) := ⟨root, rfl⟩
      simp only [hthere, not_true_eq_false, false_or]
      rcases unlock_outcome hpass hparams hderive with ⟨wrapped, evk, r, hexact, hunwrap, hok, -⟩ |
        ⟨wrapped, e, hexact, hrun⟩ | ⟨hnone, ⟨r, hok⟩, -⟩
      · -- the passphrase opens the stored key, so it is the one in force
        rw [hok]
        constructor
        · rintro ⟨⟨e, herror⟩, -⟩
          cases herror
        · rintro ⟨hconfig, -, -⟩
          obtain ⟨config, hrow⟩ := Option.isSome_iff_exists.mp hconfig
          have hreads : toRootKdfParams config = .ok params := by
            rw [kdfParams, hrow] at hparams
            exact hparams
          exact absurd (hforce passphrase root wrapped evk ⟨config, params, hrow, hreads, hderive⟩
            hexact hunwrap) hother
      · rw [hprepared _ hrun]
        constructor
        · rintro ⟨hconfig, hstate⟩
          exact ⟨hconfig, hstate, wrapped, hexact⟩
        · rintro ⟨hconfig, hstate, -⟩
          exact ⟨hconfig, hstate⟩
      · rw [hok]
        constructor
        · rintro ⟨⟨e, herror⟩, -⟩
          cases herror
        · rintro ⟨-, -, wrapped, hexact⟩
          exact absurd hexact (hnone wrapped)

/-- A guarded unlock does not get to a key of another length. -/
theorem Guarded.not_other (h : Guarded passphrase w) :
    Derives w passphrase → ∀ bytes, storedKey w ≠ some (.other bytes) := by
  intro hderives bytes hother
  rcases h.2.2 with hrefuses | ⟨wrapped, hexact⟩
  · exact hrefuses hderives
  · rw [hexact] at hother
    cases hother

/-- An unlock destroys no key material exactly where it is harmless. -/
theorem keepsKeyMaterial_iff (hforce : InForce w owner) :
    KeepsKeyMaterial owner passphrase w ↔ Harmless owner passphrase w := by
  by_cases hown : owner = none ∨ owner = some passphrase
  · have hrefused : ¬ (owner.isSome = true ∧ owner ≠ some passphrase) := by
      rintro ⟨hsome, hother⟩
      rcases hown with hnone | hsame
      · rw [hnone] at hsome
        cases hsome
      · exact hother hsame
    constructor
    · intro h
      rcases stored_iff.mp h.stored with hempty | hread | hlength
      · exact .inl hempty
      · exact .inr (.inl hread)
      · exact .inr (.inr (.inr ⟨hown, hlength⟩))
    · intro h
      refine ⟨stored_iff.mpr ?_, fun hsome hother => absurd ⟨hsome, hother⟩ hrefused⟩
      rcases h with hempty | hread | hguarded | ⟨-, hlength⟩
      · exact .inl hempty
      · exact .inr (.inl hread)
      · exact .inr (.inr hguarded.not_other)
      · exact .inr (.inr hlength)
  · have hother : owner ≠ some passphrase := fun h => hown (.inr h)
    have hsome : owner.isSome = true := Option.isSome_iff_ne_none.mpr fun h => hown (.inl h)
    constructor
    · intro h
      rcases (refused_iff hforce hother).mp (h.refused hsome hother) with hempty | hread | hguarded
      · exact .inl hempty
      · exact .inr (.inl hread)
      · exact .inr (.inr (.inl hguarded))
    · intro h
      have hsafe : passphrase = "" ∨ (∃ e, kdfParams w = .error e) ∨ Guarded passphrase w := by
        rcases h with hempty | hread | hguarded | ⟨howner, -⟩
        · exact .inl hempty
        · exact .inr (.inl hread)
        · exact .inr (.inr hguarded)
        · exact absurd howner hown
      refine ⟨stored_iff.mpr ?_, fun _ _ => (refused_iff hforce hother).mpr hsafe⟩
      rcases hsafe with hempty | hread | hguarded
      · exact .inl hempty
      · exact .inr (.inl hread)
      · exact .inr (.inr hguarded.not_other)

end Outcome

/-! ## A V1 vault and a mistyped passphrase -/

def legacyParams : RootKdfParams :=
  { parameterSetVersion := 1, salt := [1], memoryCostKib := 65536, timeCost := 3, lanes := 1 }

/-- A locked V1 vault whose data was written under the passphrase "correct horse". -/
def legacyVault : VaultWorld symbolic where
  db :=
    { vaultState := some
        { masterKeySalt := [1], argon2Params := legacyParams.toArgon2Params
          vaultId := "local-vault-01" }
      vaultConfig := some legacyParams.toRecord }
  inner := none
  draws := 0

/-- No key is stored yet, so that any passphrase may be the one in force. -/
theorem inForce_legacyVault (owner : Option String) : InForce legacyVault owner := by
  intro passphrase root wrapped evk _ hstored
  cases hstored

/-- The passphrase in force destroys nothing. -/
theorem keepsKeyMaterial_legacyVault :
    KeepsKeyMaterial (some "correct horse") "correct horse" legacyVault := by
  apply (keepsKeyMaterial_iff (inForce_legacyVault _)).mpr
  refine .inr (.inr (.inr ⟨.inr rfl, fun _ bytes h => ?_⟩))
  cases h

/-- A mistyped passphrase is accepted by a V1 vault and becomes that of its envelope key. -/
theorem legacyVault_takes_typo :
    ¬ ∀ (owner : Option String) (passphrase : String) (w : VaultWorld symbolic), InForce w owner →
      KeepsKeyMaterial owner passphrase w := by
  intro hall
  have hkeeps := hall (some "correct horse") "correct hose" legacyVault (inForce_legacyVault _)
  obtain ⟨⟨e, herror⟩, -⟩ := hkeeps.refused rfl (by decide)
  have hok : ((unlock "correct hose").run legacyVault).1 =
      .ok { initialized := false, unlocked := true } := rfl
  rw [hok] at herror
  cases herror

end VaultKeyStore

end OmniDrive
