import OmniDrive.Recovery.Runs

/-!
# Recovery phrases that recover the vault

A recovery row is a copy of the envelope key, made once. The phrases recover the current vault
as long as both rotations wait until no row is active and a phrase is generated only while every
DEK is under the envelope key in memory.
-/

namespace OmniDrive

open StatementProgram Tables VaultKeyStore

variable {P : Primitives} {M : MnemonicScheme P}

/-- A recovery row is active. -/
def HasActive (w : RecoveryWorld P) : Prop := ∃ row ∈ w.recoveryKeys, row.revokedAt = none

/-- Every active recovery row unwraps under its phrase to the envelope key that the vault row
wraps. -/
def PhrasesCurrent (s : RecoveryRun M) : Prop :=
  ∀ row ∈ s.world.recoveryKeys, row.revokedAt = none →
    ∃ mnemonic wrapped v kek e, s.phrases row.id = some mnemonic ∧
      row.wrappedVaultKey = .exact wrapped ∧ unwrapKey (M.recoveryKey mnemonic) wrapped = .ok e ∧
      s.world.vault.db.vaultState = some v ∧
      v.encryptedVaultKey = some (.exact (wrapKey kek e))

/-- After a restore with the phrase of an active row, a lock and an unlock with the new
passphrase, every DEK row unwraps to the DEK it was minted with. -/
def RestoreRecovers (s : RecoveryRun M) : Prop :=
  ∀ row ∈ s.world.recoveryKeys, row.revokedAt = none →
    ∀ mnemonic req response world, s.phrases row.id = some mnemonic →
      M.parse req.mnemonic = some mnemonic →
      (Recovery.restoreFromRecoveryKey M req).run s.world = (.ok response, world) →
      ∃ result w, (unlock req.newPassphrase).run (VaultKeyStore.lock.run world.vault).2 =
        (.ok result, w) ∧
        ∀ dekRow ∈ w.db.deks, ∃ dek, s.minted dekRow.dekId = some dek ∧
          (unwrapDekBytes dekRow.wrappedDek).run w = (.ok dek, w)

/-- The operation keeps the phrases: a rotation comes when no row is active, and a phrase is
generated when every DEK is under the envelope key in memory. -/
def RecoveryOp.KeepsPhrases (op : RecoveryOp) (s : RecoveryRun M) : Prop :=
  match op with
  | .rotateForRevocation => ¬ HasActive s.world
  | .rotateVaultKey _ => ¬ HasActive s.world
  | .generateRecoveryKey _ => CurrentKeyOpensAll s.world.vault
  | _ => True

/-! ## The invariant -/

/-- Every active row is the envelope key under its phrase, and all DEKs are under that key while
there is an active row. -/
structure RecoverableWith (kek e : P.Key) (s : RecoveryRun M) : Prop where
  vault : EnvelopeVault (HasActive s.world) s.minted kek e s.world.vault
  rows : ∀ row ∈ s.world.recoveryKeys, row.revokedAt = none → ∃ mnemonic,
    s.phrases row.id = some mnemonic ∧
      row.wrappedVaultKey = .exact (wrapKey (M.recoveryKey mnemonic) e)
  ids : ∀ row ∈ s.world.recoveryKeys, row.id ≤ s.world.recoverySequence

def Recoverable (s : RecoveryRun M) : Prop := ∃ kek e, RecoverableWith kek e s

section Invariant

variable {s : RecoveryRun M} {kek e : P.Key}

/-- A key that a phrase finds is the envelope key. -/
theorem RecoverableWith.found (ideal : P.Ideal) (h : RecoverableWith kek e s) {key found : P.Key}
    {vaultId : String}
    (hfind : Recovery.findEnvelopeKey key (Recovery.activeKeys vaultId s.world) = some found) :
    found = e := by
  obtain ⟨row, hrow, hopen⟩ := List.exists_of_findSome?_eq_some hfind
  rw [Recovery.activeKeys, mem_orderBy, List.mem_filter, Recovery.isActive, Bool.and_eq_true,
    Option.isNone_iff_eq_none] at hrow
  obtain ⟨mnemonic, -, hwrapped⟩ := h.rows row hrow.1 hrow.2.2
  rw [hwrapped, Sized.tryInto_exact, Option.bind_some] at hopen
  rcases hunwrap : unwrapKey key (wrapKey (M.recoveryKey mnemonic) e) with err | found'
  · rw [hunwrap] at hopen
    cases hopen
  · rw [hunwrap] at hopen
    cases hopen
    exact (ideal.unwrapKey_wrapKey_eq_ok.mp hunwrap).2.symm

/-- A restore wraps the envelope key again. -/
theorem RecoverableWith.restored (ideal : P.Ideal) (h : RecoverableWith kek e s)
    {req : Recovery.RestoreRequest} {response : Recovery.RestoreResponse} {world : RecoveryWorld P}
    (hrun : (Recovery.restoreFromRecoveryKey M req).run s.world = (.ok response, world)) :
    req.newPassphrase ≠ "" ∧ world.recoveryKeys = s.world.recoveryKeys ∧
      world.recoverySequence = s.world.recoverySequence ∧
      ∃ root, RootKeysFor world.vault.db req.newPassphrase root ∧
        EnvelopeVault (HasActive s.world) s.minted root.kek e world.vault := by
  obtain ⟨hpass, v, mnemonic, found, root, hv, -, hfind, hrestored, hkeys, hsequence⟩ :=
    Recovery.outcome_of_restore_ok hrun
  rw [h.found ideal hfind] at hrestored
  exact ⟨hpass, hkeys, hsequence, root, hrestored.rootKeys,
    Recovery.envelopeVault_of_restored h.vault hv hrestored⟩

/-- Under the invariant, every active row holds the current envelope key. -/
theorem phrasesCurrent_of_recoverable (ideal : P.Ideal) (h : Recoverable s) :
    PhrasesCurrent s := by
  obtain ⟨kek, e, h⟩ := h
  intro row hrow hactive
  obtain ⟨mnemonic, hphrase, hwrapped⟩ := h.rows row hrow hactive
  obtain ⟨v, hv, hkey⟩ := h.vault.stored
  exact ⟨mnemonic, _, v, kek, e, hphrase, hwrapped, ideal.unwrapKey_wrapKey _ _, hv, hkey⟩

/-- Under the invariant, a restore recovers every DEK. -/
theorem restoreRecovers_of_recoverable (ideal : P.Ideal) (h : Recoverable s) :
    RestoreRecovers s := by
  obtain ⟨kek, e, h⟩ := h
  intro row hrow hactive mnemonic req response world _ _ hrun
  obtain ⟨hpass, -, -, root, hroot, hvault⟩ := h.restored ideal hrun
  obtain ⟨w, hunlock, hsame⟩ := hvault.lock.unlocks ideal hpass hroot
  have hopen := hvault.lock.unlocked hsame
  refine ⟨_, w, hunlock, ?_⟩
  intro dekRow hdekRow
  obtain ⟨dek, hwrapped⟩ := hopen.table.current dekRow hdekRow (Or.inr ⟨row, hrow, hactive⟩)
  have hreads : OpensUnder e dekRow dek := (hwrapped.opensUnder_iff ideal).mpr ⟨rfl, rfl⟩
  refine ⟨dek, hopen.table.opens ideal hdekRow hreads, ?_⟩
  exact (run_unwrapDekBytes hsame.1 dekRow dek).mpr ⟨e, rfl, Or.inl hreads⟩

/-- A first unlock finds no recovery row. -/
theorem recoverable_of_firstUnlocked {passphrase : String} (h : FirstUnlocked passphrase s) :
    Recoverable s := by
  obtain ⟨-, root, e, -, hvault⟩ := h.envelopeVault (HasActive s.world)
  obtain ⟨-, -, -, -, -, -, -, -, hnone, -⟩ := h
  refine ⟨root.kek, e, hvault, ?_, ?_⟩
  · rw [hnone]
    exact fun row hrow => by cases hrow
  · rw [hnone]
    exact fun row hrow => by cases hrow

/-- An operation that keeps the envelope key keeps the rows. -/
theorem RecoverableWith.withVault (h : RecoverableWith kek e s) {kek' : P.Key} {w : VaultWorld P}
    (hvault : EnvelopeVault (HasActive s.world) s.minted kek' e w) :
    Recoverable (s.withVault w) :=
  ⟨kek', e, hvault, h.rows, h.ids⟩

/-- A rotation finds no active row. -/
theorem RecoverableWith.rotated (h : RecoverableWith kek e s) (hnone : ¬ HasActive s.world)
    {settled : Prop} {kek' e' : P.Key} {w : VaultWorld P}
    (hvault : EnvelopeVault settled s.minted kek' e' w) : Recoverable (s.withVault w) := by
  refine ⟨kek', e', hvault.mono fun hactive => absurd hactive hnone, ?_, h.ids⟩
  intro row hrow hactive
  exact absurd ⟨row, hrow, hactive⟩ hnone

/-- A new phrase wraps the envelope key, when all DEKs are under it. -/
theorem RecoverableWith.generated (ideal : P.Ideal) (h : RecoverableWith kek e s)
    (hall : CurrentKeyOpensAll s.world.vault) {headers : HeaderMap}
    {response : Recovery.GenerateResponse M} {world : RecoveryWorld P}
    (hrun : (Recovery.generateRecoveryKey M headers).run s.world = (.ok response, world)) :
    Recoverable (s.remember response world) := by
  obtain ⟨e', vaultId, createdBy, henv, hid, rfl⟩ := Recovery.outcome_of_generate_ok hrun
  have hcur : e' = e := by
    rcases hinner : s.world.vault.inner with _ | keys
    · rw [hinner] at henv
      cases henv
    · rw [hinner, Option.bind_some, h.vault.slot keys hinner] at henv
      exact (Option.some.inj henv).symm
  have hrows : ∀ row ∈ s.world.vault.db.deks, ∃ dek, WrappedUnder e row dek := by
    intro row hrow
    obtain ⟨dek, hopen⟩ := hall e' henv row hrow
    obtain ⟨key, dek', -, hwrapped⟩ := h.vault.table.wrapped row hrow
    obtain ⟨rfl, -⟩ := (hwrapped.opensUnder_iff ideal).mp hopen
    rw [hcur] at hwrapped
    exact ⟨dek', hwrapped⟩
  have hvault : EnvelopeVault (HasActive s.world) s.minted kek e
      { s.world.vault with draws := s.world.vault.draws + 1 } :=
    h.vault.congr rfl rfl rfl rfl h.vault.slot
  refine ⟨kek, e, hvault.settle hrows, ?_, ?_⟩
  · intro row hrow hactive
    rcases List.mem_append.mp hrow with hold | hnew
    · obtain ⟨mnemonic, hphrase, hwrapped⟩ := h.rows row hold hactive
      have hle := h.ids row hold
      refine ⟨mnemonic, ?_, hwrapped⟩
      show Function.update s.phrases response.recoveryKeyId _ row.id = _
      rw [Function.update_of_ne (by omega), hphrase]
    · rw [List.mem_singleton.mp hnew, ← hcur]
      refine ⟨response.mnemonic, ?_, rfl⟩
      show Function.update s.phrases response.recoveryKeyId _ (s.world.recoverySequence + 1) = _
      rw [hid, Function.update_self]
  · intro row hrow
    show row.id ≤ s.world.recoverySequence + 1
    rcases List.mem_append.mp hrow with hold | hnew
    · have hle := h.ids row hold
      omega
    · rw [List.mem_singleton.mp hnew]
      exact le_rfl

/-! ## Each operation -/

/-- An operation that returns and meets its condition keeps the phrases. -/
theorem recoverable_step (ideal : P.Ideal) {op : RecoveryOp} (h : Recoverable s)
    (hok : op.ReturnsOk s) (hguard : op.KeepsPhrases s) : Recoverable (op.step s) := by
  obtain ⟨kek, e, h⟩ := h
  have hexec := RecoveryOp.exec_eq_step hok
  generalize op.step s = t at hexec
  cases op with
  | unlock passphrase =>
    obtain ⟨⟨result, w⟩, hret, rfl⟩ := Option.map_eq_some_iff.mp hexec
    obtain ⟨-, root, -, -, hsame⟩ :=
      outcome_of_unlock_ok ideal h.vault (returned_eq_some.mp hret)
    exact ⟨kek, e, h.vault.unlocked hsame, h.rows, h.ids⟩
  | lock =>
    rw [RecoveryOp.exec] at hexec
    obtain ⟨⟨result, w⟩, hret, rfl⟩ := Option.map_eq_some_iff.mp hexec
    cases hret
    exact h.withVault h.vault.lock
  | migrateKdfParamsIfNeeded =>
    obtain ⟨⟨result, w⟩, hret, rfl⟩ := Option.map_eq_some_iff.mp hexec
    obtain hsame | ⟨root, -, hvault, -⟩ :=
      outcome_of_migrate_ok h.vault (returned_eq_some.mp hret)
    · rw [hsame]
      exact h.withVault h.vault
    · exact h.withVault hvault
  | createPackDek inodeId =>
    obtain ⟨⟨⟨dekId, dek⟩, w⟩, hret, rfl⟩ := Option.map_eq_some_iff.mp hexec
    obtain ⟨hvault, -, -⟩ := outcome_of_createPackDek_ok h.vault (returned_eq_some.mp hret)
    exact ⟨kek, e, hvault, h.rows, h.ids⟩
  | rotateForRevocation =>
    obtain ⟨⟨result, w⟩, hret, rfl⟩ := Option.map_eq_some_iff.mp hexec
    obtain ⟨keys, e', -, -, hvault, -⟩ :=
      outcome_of_rotateForRevocation_ok h.vault (returned_eq_some.mp hret)
    exact h.rotated hguard hvault
  | processRewrapBatch batchSize =>
    obtain ⟨⟨result, w⟩, hret, rfl⟩ := Option.map_eq_some_iff.mp hexec
    have hbatch := outcome_of_processRewrapBatch ideal h.vault batchSize
    rw [returned_eq_some.mp hret] at hbatch
    exact h.withVault hbatch.1
  | rotateVaultKey newPassphrase =>
    obtain ⟨⟨result, w⟩, hret, rfl⟩ := Option.map_eq_some_iff.mp hexec
    obtain ⟨-, root, e', -, hvault, -⟩ :=
      outcome_of_rotateVaultKey_ok ideal h.vault (returned_eq_some.mp hret)
    obtain ⟨kek', e'', hrotated⟩ := h.rotated hguard hvault
    exact ⟨kek', e'', hrotated.vault, hrotated.rows, hrotated.ids⟩
  | generateRecoveryKey headers =>
    obtain ⟨⟨response, world⟩, hret, rfl⟩ := Option.map_eq_some_iff.mp hexec
    exact h.generated ideal hguard (returned_eq_some.mp hret)
  | revokeRecoveryKeys headers =>
    obtain ⟨⟨n, world⟩, hret, rfl⟩ := Option.map_eq_some_iff.mp hexec
    have hrun := returned_eq_some.mp hret
    obtain ⟨haccess, hsequence, hrows⟩ := Recovery.outcome_of_revoke_ok hrun
    have hworld : world.vault = s.world.vault := by rw [RecoveryWorld.vault, haccess]; rfl
    refine ⟨kek, e, ?_, fun row hrow hactive => h.rows row (hrows row hrow hactive) hactive, ?_⟩
    · show EnvelopeVault (HasActive world) s.minted kek e world.vault
      rw [hworld]
      exact h.vault.mono fun ⟨row, hrow, hactive⟩ => ⟨row, hrows row hrow hactive, hactive⟩
    · intro row hrow
      obtain ⟨old, hold, hid⟩ := Recovery.ids_of_revoke_ok hrun row hrow
      rw [hid]
      show old.id ≤ world.recoverySequence
      rw [hsequence]
      exact h.ids old hold
  | restoreFromRecoveryKey req =>
    obtain ⟨⟨response, world⟩, hret, rfl⟩ := Option.map_eq_some_iff.mp hexec
    obtain ⟨-, hkeys, hsequence, root, -, hvault⟩ := h.restored ideal (returned_eq_some.mp hret)
    refine ⟨root.kek, e, hvault.mono ?_, ?_, ?_⟩
    · rintro ⟨row, hrow, hactive⟩
      exact ⟨row, hkeys ▸ hrow, hactive⟩
    · intro row hrow
      exact h.rows row (hkeys ▸ hrow)
    · intro row hrow
      show row.id ≤ world.recoverySequence
      rw [hsequence]
      exact h.ids row (hkeys ▸ hrow)

end Invariant

/-! ## Runs from the first unlock -/

/-- In every run in which no rotation meets an active recovery row and no phrase is generated
while a DEK waits to be re-wrapped, the phrases recover the current vault. -/
theorem phrases_recover (ideal : P.Ideal) {passphrase : String} {ops : List RecoveryOp}
    {s : RecoveryRun M} (hs : FirstUnlocked passphrase s)
    (hlegal : GuardedRuns.guarded RecoveryOp.step RecoveryOp.ReturnsOk ops s)
    (hguard : GuardedRuns.guarded RecoveryOp.step RecoveryOp.KeepsPhrases ops s) :
    ∀ t ∈ GuardedRuns.states RecoveryOp.step ops s, PhrasesCurrent t ∧ RestoreRecovers t := by
  intro t ht
  have hinv : Recoverable t := by
    apply GuardedRuns.inv_of_guarded RecoveryOp.step RecoveryOp.ReturnsOk
      RecoveryOp.KeepsPhrases Recoverable _ (recoverable_of_firstUnlocked hs) hlegal hguard t ht
    intro op u hu hl hg
    exact recoverable_step ideal hu hl hg
  exact ⟨phrasesCurrent_of_recoverable ideal hinv, restoreRecovers_of_recoverable ideal hinv⟩

/-- A run with a rotation worked off before a phrase is generated, a restore, and a rotation
after the phrases have been revoked. -/
def recoveredRun : List RecoveryOp :=
  [.createPackDek 1, .rotateForRevocation, .processRewrapBatch 10, .generateRecoveryKey owner,
    .createPackDek 2, .restoreFromRecoveryKey ⟨none, symbolicPhrases.text (7 : ℕ), "battery staple"⟩,
    .lock, .unlock "battery staple", .revokeRecoveryKeys owner, .rotateVaultKey "tr0ub4dor",
    .generateRecoveryKey owner]

theorem recoveredRun_recovers : FirstUnlocked "correct horse" ownedVault ∧
    ∀ t ∈ GuardedRuns.states RecoveryOp.step recoveredRun ownedVault,
      PhrasesCurrent t ∧ RestoreRecovers t := by
  refine ⟨ownedVault_firstUnlocked, ?_⟩
  apply phrases_recover symbolic_ideal ownedVault_firstUnlocked
  · exact ⟨rfl, rfl, rfl, rfl, rfl, rfl, rfl, rfl, rfl, rfl, rfl, trivial⟩
  · refine ⟨trivial, ?_, trivial, ?_, trivial, trivial, trivial, trivial, trivial, ?_, ?_, trivial⟩
    · rintro ⟨row, hrow, -⟩
      cases hrow
    · intro cur hcur row hrow
      cases hcur
      rw [List.mem_singleton.mp hrow]
      exact ⟨SymbolicKey.random 5, _, rfl, rfl⟩
    · rintro ⟨row, hrow, hactive⟩
      rw [List.mem_singleton.mp hrow] at hactive
      cases hactive
    · intro cur hcur row hrow
      cases hcur
      rcases List.mem_cons.mp hrow with rfl | hlast
      · exact ⟨SymbolicKey.random 5, _, rfl, rfl⟩
      · rw [List.mem_singleton.mp hlast]
        exact ⟨SymbolicKey.random 8, _, rfl, rfl⟩

/-- A DEK and a phrase, and then a rotation to a new passphrase. -/
def staleRun : List RecoveryOp :=
  [.createPackDek 1, .generateRecoveryKey owner, .rotateVaultKey "battery staple"]

/-- The row of the phrase still holds the envelope key from before the rotation. -/
theorem phrase_stale_after_rotation :
    ¬ ∀ (passphrase : String) (ops : List RecoveryOp) (s : RecoveryRun symbolicPhrases),
      FirstUnlocked passphrase s →
      GuardedRuns.guarded RecoveryOp.step RecoveryOp.ReturnsOk ops s →
      ∀ t ∈ GuardedRuns.states RecoveryOp.step ops s, PhrasesCurrent t ∧ RestoreRecovers t := by
  intro hall
  obtain ⟨hcurrent, -⟩ := hall "correct horse" staleRun ownedVault ownedVault_firstUnlocked
    ⟨rfl, rfl, rfl, trivial⟩ _ (GuardedRuns.mem_states_last _ _ _)
  obtain ⟨mnemonic, wrapped, v, kek, e, hphrase, hwrapped, hopen, hv, hkey⟩ :=
    hcurrent _ (List.mem_singleton_self _) rfl
  cases hphrase
  cases hwrapped
  cases hopen
  cases hv
  cases hkey

end OmniDrive
