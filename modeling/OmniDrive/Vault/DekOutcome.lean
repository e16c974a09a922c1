import OmniDrive.Vault.UnlockOutcome

/-!
# What the operations on data encryption keys do

Reading a wrapped DEK tries the current envelope key and then the previous one. A new DEK is
wrapped under the current envelope key only.
-/

namespace OmniDrive

open StatementProgram Tables

variable {P : Primitives}

namespace VaultKeyStore

/-- The blob of the row is a wrap of `dek` that opens under `key`. -/
def OpensUnder (key : P.Key) (row : WrappedDekRecord P) (dek : P.Key) : Prop :=
  ∃ wrapped, row.wrappedDek = .exact wrapped ∧ unwrapKey key wrapped = .ok dek

/-- The blob of the row is `dek` wrapped under `key`. -/
def WrappedUnder (key : P.Key) (row : WrappedDekRecord P) (dek : P.Key) : Prop :=
  row.wrappedDek = .exact (wrapKey key dek)

/-- A wrap opens under its own key and no other, and gives back its plaintext. -/
theorem WrappedUnder.opensUnder_iff (ideal : P.Ideal) {key key' dek dek' : P.Key}
    {row : WrappedDekRecord P} (h : WrappedUnder key row dek) :
    OpensUnder key' row dek' ↔ key = key' ∧ dek = dek' := by
  constructor
  · rintro ⟨wrapped, hblob, hunwrap⟩
    have heq : wrapped = wrapKey key dek := by
      rw [h] at hblob
      exact (Sized.exact.inj hblob).symm
    rw [heq] at hunwrap
    exact ideal.unwrapKey_wrapKey_eq_ok.mp hunwrap
  · rintro ⟨rfl, rfl⟩
    exact ⟨_, h, ideal.unwrapKey_wrapKey _ _⟩

/-- What the current-then-previous lookup makes of a row. -/
def Reads (keys : UnlockedVaultKeys P) (row : WrappedDekRecord P) (dek : P.Key) : Prop :=
  ∃ cur, keys.envelopeVaultKey = some cur ∧ (OpensUnder cur row dek ∨
    (¬ ∃ dek', OpensUnder cur row dek') ∧
      ∃ prev, keys.previousEnvelopeVaultKey = some prev ∧ OpensUnder prev row dek)

/-- `unwrap_dek_bytes` returns a DEK exactly when the lookup finds it, and changes nothing. -/
theorem run_unwrapDekBytes {w : VaultWorld P} {keys : UnlockedVaultKeys P}
    (hinner : w.inner = some keys) (row : WrappedDekRecord P) (dek : P.Key) :
    (unwrapDekBytes row.wrappedDek).run w = (.ok dek, w) ↔ Reads keys row dek := by
  have henvelope := run_requireEnvelopeKey w
  rw [hinner, Option.bind_some] at henvelope
  rcases henv : keys.envelopeVaultKey with _ | cur
  · rw [henv] at henvelope
    rw [unwrapDekBytes, Prog.run_bind_of_error henvelope]
    simp [Reads, henv]
  rw [henv] at henvelope
  rw [unwrapDekBytes, Prog.run_bind_of_ok henvelope]
  rcases hrow : row.wrappedDek with wrapped | bytes
  · rcases hcur : unwrapKey cur wrapped with e | dek'
    · rcases hprev : keys.previousEnvelopeVaultKey with _ | prev
      · simp [unwrapWithFallback, hcur, previousEnvelopeKey, hinner, hprev, Reads, henv,
          OpensUnder, hrow]
      · rcases hopen : unwrapKey prev wrapped with e' | dek'
        · simp [unwrapWithFallback, hcur, previousEnvelopeKey, hinner, hprev, Reads, henv,
            OpensUnder, hrow, hopen]
        · simp [unwrapWithFallback, hcur, previousEnvelopeKey, hinner, hprev, Reads, henv,
            OpensUnder, hrow, hopen]
    · simp [unwrapWithFallback, hcur, Reads, henv, OpensUnder, hrow]
  · simp [Reads, henv, OpensUnder, hrow]

/-- The generation that `current_vault_key_generation` reports. -/
def generationOf (db : VaultDb P) : ℤ := (db.vaultState.bind (·.vaultKeyGeneration)).getD 1

@[simp] theorem run_currentVaultKeyGeneration_bind {β : Type} (k : ℤ → VaultProg P β)
    (w : VaultWorld P) :
    (currentVaultKeyGeneration >>= k).run w = (k (generationOf w.db)).run w := rfl

section Mint

variable {w : VaultWorld P} {keys : UnlockedVaultKeys P} {cur : P.Key} (inodeId : ℤ)

/-- The world after a new DEK has been drawn, wrapped and stored. -/
def dekInserted (cur : P.Key) (inodeId keyVersion : ℤ) (w : VaultWorld P) : VaultWorld P :=
  { w with
    db := Db.appendDek inodeId (wrapKey cur (P.randomKey w.draws)) keyVersion (generationOf w.db) w.db
    draws := w.draws + 1 }

/-- A new pack DEK is wrapped under the current envelope key. -/
theorem run_createPackDek (hinner : w.inner = some keys) (henv : keys.envelopeVaultKey = some cur) :
    (createPackDek inodeId).run w = (.ok (w.db.dekSequence + 1, P.randomKey w.draws),
      dekInserted cur inodeId (Db.nextKeyVersion inodeId w.db) w) := by
  have henvelope := run_requireEnvelopeKey w
  rw [hinner, Option.bind_some, henv] at henvelope
  rw [createPackDek, Prog.run_bind_of_ok henvelope]
  rfl

/-- Without an envelope key in the slot, no pack DEK is made. -/
theorem run_createPackDek_locked (hnone : w.inner.bind (·.envelopeVaultKey) = none) :
    (createPackDek inodeId).run w = (.error .locked, w) := by
  have henvelope := run_requireEnvelopeKey w
  rw [hnone] at henvelope
  rw [createPackDek, Prog.run_bind_of_error henvelope]

/-- Unwrapping changes nothing. -/
theorem run_unwrapWithFallback (envelopeKey : P.Key) (wrapped : P.Wrapped) (w : VaultWorld P) :
    ((unwrapWithFallback envelopeKey wrapped).run w).2 = w := by
  rcases hcur : unwrapKey envelopeKey wrapped with e | dek
  · rcases hprev : w.inner.bind (·.previousEnvelopeVaultKey) with _ | prev
    · simp [unwrapWithFallback, hcur, previousEnvelopeKey, hprev]
    · rcases hopen : unwrapKey prev wrapped with e' | dek
      · simp [unwrapWithFallback, hcur, previousEnvelopeKey, hprev, hopen]
      · simp [unwrapWithFallback, hcur, previousEnvelopeKey, hprev, hopen]
  · simp [unwrapWithFallback, hcur]

/-- For an inode that has a DEK, nothing is written, and a returned identifier is the one of the
latest DEK. -/
theorem run_getOrCreateDek_existing {record : WrappedDekRecord P}
    (hlatest : Db.latestDek inodeId w.db = some record) :
    ((getOrCreateDek inodeId).run w).2 = w ∧
      ∀ dekId dek, ((getOrCreateDek inodeId).run w).1 = .ok (dekId, dek) →
        dekId = record.dekId := by
  have henvelope := run_requireEnvelopeKey w
  rcases henv : w.inner.bind (·.envelopeVaultKey) with _ | cur
  · rw [henv] at henvelope
    rw [getOrCreateDek, Prog.run_bind_of_error henvelope]
    exact ⟨rfl, fun _ _ h => by cases h⟩
  rw [henv] at henvelope
  rw [getOrCreateDek, Prog.run_bind_of_ok henvelope, Db.getWrappedDek, run_selectDb_bind, hlatest]
  rcases hblob : record.wrappedDek with wrapped | bytes
  · simp only [hblob, Sized.tryInto_exact, Prog.ofOption_some, Prog.ret_bind]
    have hsame := run_unwrapWithFallback cur wrapped w
    rcases hrun : (unwrapWithFallback cur wrapped).run w with ⟨e | dek, t⟩
    · rw [hrun] at hsame
      rw [Prog.run_bind_of_error hrun]
      exact ⟨hsame, fun _ _ h => by cases h⟩
    · rw [hrun] at hsame
      rw [Prog.run_bind_of_ok hrun]
      refine ⟨hsame, fun dekId dek' h => ?_⟩
      cases h
      rfl
  · simp only [hblob, Sized.tryInto_other, Prog.ofOption_none, Prog.fail_bind]
    exact ⟨rfl, fun _ _ h => by cases h⟩

/-- For an inode without a DEK, one is made under the current envelope key. -/
theorem run_getOrCreateDek_new (hlatest : Db.latestDek inodeId w.db = none)
    (hinner : w.inner = some keys) (henv : keys.envelopeVaultKey = some cur) :
    (getOrCreateDek inodeId).run w = (.ok (w.db.dekSequence + 1, P.randomKey w.draws),
      dekInserted cur inodeId 1 w) := by
  have henvelope := run_requireEnvelopeKey w
  rw [hinner, Option.bind_some, henv] at henvelope
  rw [getOrCreateDek, Prog.run_bind_of_ok henvelope, Db.getWrappedDek, run_selectDb_bind, hlatest]
  rfl

/-- Without an envelope key in the slot, no DEK is looked up. -/
theorem run_getOrCreateDek_locked (hnone : w.inner.bind (·.envelopeVaultKey) = none) :
    (getOrCreateDek inodeId).run w = (.error .locked, w) := by
  have henvelope := run_requireEnvelopeKey w
  rw [hnone] at henvelope
  rw [getOrCreateDek, Prog.run_bind_of_error henvelope]

end Mint

end VaultKeyStore

end OmniDrive
