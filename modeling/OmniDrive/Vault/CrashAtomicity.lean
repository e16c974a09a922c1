import OmniDrive.Crypto.Symbolic
import OmniDrive.Vault.RotationOutcome

/-!
# Crashes during a rotation to a new passphrase

A rotation replaces the vault row, the KDF row and each wrapped DEK in statements of their own.
A crash between the first and the last of them leaves a database that no passphrase opens
fully; a crash anywhere else leaves one that the old or the new passphrase does.
-/

namespace OmniDrive

open StatementProgram Tables

variable {P : Primitives}

namespace VaultKeyStore

/-! ## What a database is worth after a crash -/

/-- The world of a new process on the same database. -/
def restarted (w : VaultWorld P) : VaultWorld P := { w with inner := none }

/-- A new process can unlock with the passphrase and unwrap every DEK. -/
def ReadableWith (passphrase : String) (w : VaultWorld P) : Prop :=
  ∃ result w', (unlock passphrase).run (restarted w) = (.ok result, w') ∧
    ∀ row ∈ w'.db.deks, ∃ dek, (unwrapDekBytes row.wrappedDek).run w' = (.ok dek, w')

section Readable

variable {w : VaultWorld P} {passphrase : String} {params : RootKdfParams} {v : VaultRecord P}
variable {wrapped : P.Wrapped}

/-- With an empty passphrase or one that Argon2 refuses, an unlock fails. -/
theorem run_unlock_underivable (hconfig : w.db.vaultConfig = some params.toRecord)
    (hparams : params.Fits) (hv : w.db.vaultState = some v)
    (h : passphrase = "" ∨ deriveRootKeys P passphrase params = none) :
    ∃ e, (unlock passphrase).run w = (.error e, w) := by
  by_cases hpass : passphrase = ""
  · exact ⟨.emptyPassphrase, by simp [unlock, hpass]⟩
  · have hnone : deriveRootKeys P passphrase params = none := h.resolve_left hpass
    have hok : toRootKdfParams params.toRecord = .ok params :=
      toRootKdfParams_eq_ok.mpr ⟨rfl, hparams⟩
    exact ⟨.crypto .argon2, by
      simp [unlock, hpass, ensureVaultConfig, Db.getVaultConfig, hconfig, hok,
        ensureLocalVaultParams, Db.getVaultParams, hv, hnone]⟩

/-- A database is readable exactly when the passphrase leads, through the KDF row and the stored
key, to a vault key under which every row opens. -/
theorem readableWith_iff (hconfig : w.db.vaultConfig = some params.toRecord)
    (hparams : params.Fits) (hv : w.db.vaultState = some v)
    (hkey : v.encryptedVaultKey = some (.exact wrapped)) :
    ReadableWith passphrase w ↔ passphrase ≠ "" ∧ ∃ root evk,
      deriveRootKeys P passphrase params = some root ∧ unwrapKey root.kek wrapped = .ok evk ∧
      ∀ row ∈ w.db.deks, ∃ dek, OpensUnder evk row dek := by
  by_cases hderive : passphrase = "" ∨ deriveRootKeys P passphrase params = none
  · apply iff_of_false
    · intro ⟨result, w', hrun, _⟩
      obtain ⟨e, he⟩ := run_unlock_underivable (w := restarted w) hconfig hparams hv hderive
      rw [he] at hrun
      cases hrun
    · intro ⟨hpass, root, evk, hroot, _⟩
      have hnone := hderive.resolve_left hpass
      rw [hroot] at hnone
      cases hnone
  simp only [not_or] at hderive
  obtain ⟨hpass, hsome⟩ := hderive
  obtain ⟨root, hroot⟩ := Option.ne_none_iff_exists'.mp hsome
  have hroots : RootKeysFor (restarted w).db passphrase root :=
    ⟨_, params, hconfig, toRootKdfParams_eq_ok.mpr ⟨rfl, hparams⟩, hroot⟩
  rcases hunwrap : unwrapKey root.kek wrapped with e | evk
  · apply iff_of_false
    · intro ⟨result, w', hrun, _⟩
      rw [run_unlock_refused hpass hroots hv hkey hunwrap] at hrun
      cases hrun
    · intro ⟨_, root', evk, hroot', hunwrap', _⟩
      rw [hroot] at hroot'
      cases hroot'
      rw [hunwrap] at hunwrap'
      cases hunwrap'
  obtain ⟨w', hrun, hinner, _, users, hdb⟩ := run_unlock_stored hpass hroots hv hkey hunwrap
  have hrows : w'.db.deks = w.db.deks := by rw [hdb]; rfl
  have hreads : ∀ row dek, Reads (.withEnvelopeKey root.masterKey root.vaultKey evk) row dek ↔
      OpensUnder evk row dek := by
    intro row dek
    simp [Reads, UnlockedVaultKeys.withEnvelopeKey]
  constructor
  · intro ⟨result, t, hrun', hall⟩
    rw [hrun] at hrun'
    cases hrun'
    refine ⟨hpass, root, evk, hroot, hunwrap, fun row hrow => ?_⟩
    obtain ⟨dek, hdek⟩ := hall row (by rw [hrows]; exact hrow)
    exact ⟨dek, (hreads row dek).mp ((run_unwrapDekBytes hinner row dek).mp hdek)⟩
  · intro ⟨_, root', evk', hroot', hunwrap', hall⟩
    rw [hroot] at hroot'
    cases hroot'
    rw [hunwrap] at hunwrap'
    cases hunwrap'
    refine ⟨_, w', hrun, fun row hrow => ?_⟩
    rw [hrows] at hrow
    obtain ⟨dek, hdek⟩ := hall row hrow
    exact ⟨dek, (run_unwrapDekBytes hinner row dek).mpr ((hreads row dek).mpr hdek)⟩

end Readable

/-! ## The database at each cut point -/

namespace PreparedRotation

/-- The vault row after a rotation has replaced it. -/
def replaceState (r : PreparedRotation P) (db : VaultDb P) : VaultDb P :=
  { db with vaultState := db.vaultState.map r.record }

/-- The database after `j` writes of a rotation. -/
def dbAfter (r : PreparedRotation P) (db : VaultDb P) : ℕ → VaultDb P
  | 0 => db
  | 1 => r.replaceState db
  | j + 2 => storeRows r.newGeneration (r.rewrapped.take j) (r.replaceVault db)

theorem cut_storeRewrapped (newGeneration : ℤ) (rewrapped : List (ℤ × P.Wrapped)) (j : ℕ)
    (w : VaultWorld P) : (storeRewrapped newGeneration rewrapped).cut j w =
      { w with db := storeRows newGeneration (rewrapped.take j) w.db } := by
  induction rewrapped generalizing j w with
  | nil =>
    have hnil : ([] : List (ℤ × P.Wrapped)).take j = [] := List.take_nil
    rw [hnil]
    exact Prog.cut_ret j () w
  | cons o rest ih =>
    cases j with
    | zero => rfl
    | succ j => exact ih j _

/-- Each write of a rotation is one statement. -/
theorem cut_commit (r : PreparedRotation P) (j : ℕ) (w : VaultWorld P) :
    r.commit.cut j w = { w with db := r.dbAfter w.db j } := by
  match j with
  | 0 => rfl
  | 1 => rfl
  | j + 2 => exact cut_storeRewrapped r.newGeneration r.rewrapped j _

end PreparedRotation

/-- The part of a rotation before its first write. -/
def rotationPrefix (newPassphrase : String) : VaultProg P (PreparedRotation P) := do
  let oldEnvelopeKey ← requireEnvelopeKey
  prepareRotation newPassphrase oldEnvelopeKey

/-- No statement before the first write changes the database. -/
theorem keeps_rotationPrefix (newPassphrase : String) (db : VaultDb P) :
    (rotationPrefix newPassphrase).Keeps fun w => w.db = db := by
  have hdraw : ∀ {α : Type} (tape : ℕ → α), (draw tape : VaultProg P α).Keeps
      fun w => w.db = db := fun tape => Prog.Keeps.execReturning _ fun _ h => h
  have hselect : ∀ {α : Type} (f : VaultDb P → α), (selectDb f).Keeps
      fun w => w.db = db := fun f => Prog.Keeps.query _
  apply Prog.Keeps.bind
  · exact (Prog.Keeps.query _).bind fun keys => Prog.Keeps.ofOption _ _
  intro oldEnvelopeKey
  simp only [prepareRotation, currentVaultKeyGeneration, Db.getVaultParams, Db.getVaultConfig,
    randomSalt, generateRandomKey, Db.getAllWrappedDeks, Prog.bind_assoc, Prog.pure_eq_ret,
    Prog.ret_bind]
  apply (hselect _).bind
  intro vault
  apply (hdraw _).bind
  intro newSalt
  apply (hselect _).bind
  intro config
  apply (Prog.Keeps.ofOption _ _).bind
  intro config
  apply (Prog.Keeps.ofExcept _).bind
  intro newParams
  apply (Prog.Keeps.ofOption _ _).bind
  intro newRootKeys
  apply (hdraw _).bind
  intro newVaultKey
  apply (hselect _).bind
  intro allDeks
  apply (Prog.Keeps.ofExcept _).bind
  intro rewrapped
  trivial

/-- A rotation is its prefix, its writes and the write of the slot. -/
theorem rotateVaultKey_phases {newPassphrase : String} (h : newPassphrase ≠ "") :
    (rotateVaultKey newPassphrase : VaultProg P RotationResult) = (do
      let r ← rotationPrefix newPassphrase
      r.commit
      writeSlot (some r.keys)
      pure { newGeneration := r.newGeneration, deksRewrapped := r.dekCount }) := by
  rw [rotateVaultKey_eq h, rotationPrefix, Prog.bind_assoc]

section Cut

variable {w : VaultWorld P} {newPassphrase : String} {evk : P.Key}

/-- A rotation that is not ready never changes the database. -/
theorem cut_rotateVaultKey_not_ready (henv : w.inner.bind (·.envelopeVaultKey) = some evk)
    (hready : ¬ RotationReady newPassphrase evk w) (n : ℕ) :
    ((rotateVaultKey newPassphrase).cut n w).db = w.db := by
  by_cases hpass : newPassphrase = ""
  · rw [rotateVaultKey, if_pos hpass, Prog.cut_fail]
  · have henvelope := run_requireEnvelopeKey w
    rw [henv] at henvelope
    obtain ⟨e, d, hrun⟩ := run_prepareRotation_error hpass hready
    have hprefix : (rotationPrefix newPassphrase).run w = (.error e, { w with draws := d }) := by
      rw [rotationPrefix, Prog.run_bind_of_ok henvelope, hrun]
    rw [rotateVaultKey_phases hpass, Prog.cut_bind_of_error hprefix]
    exact (keeps_rotationPrefix newPassphrase w.db).cut n rfl

/-- The prefix of a rotation that is ready has six statements. -/
theorem run_rotationPrefix (henv : w.inner.bind (·.envelopeVaultKey) = some evk)
    (hready : RotationReady newPassphrase evk w) :
    ∃ r, r.For newPassphrase evk w ∧
      (rotationPrefix newPassphrase).run w = (.ok r, { w with draws := w.draws + 2 }) ∧
      (rotationPrefix newPassphrase).count w = 6 := by
  have henvelope := run_requireEnvelopeKey w
  rw [henv] at henvelope
  obtain ⟨r, hr, hrun, hcount⟩ := run_prepareRotation hready
  have hslot : (requireEnvelopeKey : VaultProg P P.Key).count w = 1 := by
    simp only [requireEnvelopeKey, readSlot, Prog.count_query_bind, henv, Prog.ofOption_some,
      Prog.count_ret]
  refine ⟨r, hr, ?_, ?_⟩
  · rw [rotationPrefix, Prog.run_bind_of_ok henvelope, hrun]
  · rw [rotationPrefix, Prog.count_bind_of_ok henvelope, hslot, hcount]

/-- Behind its six reads and draws, a rotation that is ready writes one statement after the
other. -/
theorem cut_rotateVaultKey (henv : w.inner.bind (·.envelopeVaultKey) = some evk)
    (hready : RotationReady newPassphrase evk w) :
    ∃ r : PreparedRotation P, r.For newPassphrase evk w ∧
      ∀ n, ((rotateVaultKey newPassphrase).cut n w).db = r.dbAfter w.db (n - 6) := by
  obtain ⟨r, hr, hrun, hcount⟩ := run_rotationPrefix henv hready
  refine ⟨r, hr, fun n => ?_⟩
  rw [rotateVaultKey_phases hready.nonempty]
  by_cases hn : n ≤ 6
  · have hzero : n - 6 = 0 := by omega
    rw [Prog.cut_bind_of_le (by omega), hzero]
    exact (keeps_rotationPrefix newPassphrase w.db).cut n rfl
  obtain ⟨j, rfl⟩ : ∃ j, n = 6 + j := ⟨n - 6, by omega⟩
  have hsub : 6 + j - 6 = j := by omega
  rw [hsub, ← hcount, Prog.cut_bind_of_ok hrun]
  by_cases hj : j ≤ r.rewrapped.length + 2
  · rw [Prog.cut_bind_of_le (by rw [r.count_commit]; exact hj), r.cut_commit]
  -- behind the last write only the slot changes, and every blob has been stored
  obtain ⟨i, rfl⟩ : ∃ i, j = r.rewrapped.length + 2 + i :=
    ⟨j - (r.rewrapped.length + 2), by omega⟩
  let tail : VaultProg P RotationResult := do
    writeSlot (some r.keys)
    pure { newGeneration := r.newGeneration, deksRewrapped := r.dekCount }
  have htail : ∀ db, tail.Keeps fun t => t.db = db := fun db =>
    (Prog.Keeps.exec fun _ h => h).bind fun _ => trivial
  have hall : r.rewrapped.take (r.rewrapped.length + i) = r.rewrapped :=
    List.take_of_length_le (by omega)
  have hlast : r.dbAfter w.db (r.rewrapped.length + 2 + i) =
      PreparedRotation.storeRows r.newGeneration r.rewrapped (r.replaceVault w.db) := by
    rw [show r.rewrapped.length + 2 + i = r.rewrapped.length + i + 2 by omega,
      PreparedRotation.dbAfter, hall]
  rw [hlast, ← r.count_commit { w with draws := w.draws + 2 },
    Prog.cut_bind_of_ok (r.run_commit _) i]
  exact (htail _).cut i rfl

end Cut

/-! ## The rows at each cut point -/

namespace PreparedRotation

variable {newGeneration : ℤ} {rewrapped : List (ℤ × P.Wrapped)} {db : VaultDb P}

/-- A row none of the stored blobs belongs to is unchanged. -/
theorem mem_storeRows_of_notMem {row : WrappedDekRecord P} (h : row ∈ db.deks)
    (hnot : row.dekId ∉ rewrapped.map Prod.fst) :
    row ∈ (storeRows newGeneration rewrapped db).deks := by
  induction rewrapped generalizing db with
  | nil => exact h
  | cons o rest ih =>
    rw [List.map_cons, List.mem_cons, not_or] at hnot
    apply ih _ hnot.2
    apply mem_updateWhere.mpr
    exact ⟨row, h, by simp [hnot.1]⟩

end PreparedRotation

/-! ## Where a crash is harmless -/

/-- A vault that is unlocked with the passphrase, with every DEK wrapped under its vault key and
no later draw repeating a key or salt in use. -/
structure OpenVault (passphrase : String) (root : RootKeys P) (evk : P.Key) (w : VaultWorld P) :
    Prop where
  nonempty : passphrase ≠ ""
  config : ∃ params, w.db.vaultConfig = some params.toRecord ∧ params.Fits ∧
    deriveRootKeys P passphrase params = some root ∧
    ∀ n, w.draws ≤ n → P.randomSalt n ≠ params.salt
  stored : ∃ v, w.db.vaultState = some v ∧
    v.encryptedVaultKey = some (.exact (wrapKey root.kek evk))
  slot : w.inner.bind (·.envelopeVaultKey) = some evk
  rows : ∀ row ∈ w.db.deks, ∃ dek, WrappedUnder evk row dek
  distinct : (w.db.deks.map (·.dekId)).Nodup
  freshKey : ∀ n, w.draws ≤ n → P.randomKey n ≠ evk

/-- What a stopped process leaves is consistent: the old or the new passphrase unlocks it and
unwraps every DEK. -/
def CrashConsistent (old new : String) (w : VaultWorld P) : Prop :=
  ReadableWith old w ∨ ReadableWith new w

section Consistent

variable {old new : String} {root : RootKeys P} {evk : P.Key} {w t : VaultWorld P}
variable {r : PreparedRotation P}

/-- As long as the database is the one of the open vault, the old passphrase reads it. -/
theorem crashConsistent_unchanged (ideal : P.Ideal) (h : OpenVault old root evk w)
    (hdb : t.db = w.db) : CrashConsistent old new t := by
  obtain ⟨params, hconfig, hfits, hroot, -⟩ := h.config
  obtain ⟨v, hv, hkey⟩ := h.stored
  rw [← hdb] at hconfig hv
  apply Or.inl
  apply (readableWith_iff hconfig hfits hv hkey).mpr
  refine ⟨h.nonempty, root, evk, hroot, ideal.unwrapKey_wrapKey _ _, fun row hrow => ?_⟩
  rw [hdb] at hrow
  obtain ⟨dek, hdek⟩ := h.rows row hrow
  exact ⟨dek, (hdek.opensUnder_iff ideal).mpr ⟨rfl, rfl⟩⟩

/-- With the new vault row and the old KDF row, no passphrase reaches the new key. -/
theorem not_readable_replaceState (ideal : P.Ideal) (h : OpenVault old root evk w)
    (hr : r.For new evk w) (hdb : t.db = r.replaceState w.db) (passphrase : String) :
    ¬ ReadableWith passphrase t := by
  obtain ⟨params, hconfig, hfits, -, hsalt⟩ := h.config
  obtain ⟨v, hv, -⟩ := h.stored
  have hconfig' : t.db.vaultConfig = some params.toRecord := by rw [hdb]; exact hconfig
  have hv' : t.db.vaultState = some (r.record v) := by
    rw [hdb, PreparedRotation.replaceState, hv]
    rfl
  intro hread
  obtain ⟨-, root', evk', hroot', hunwrap, -⟩ := (readableWith_iff hconfig' hfits hv' rfl).mp hread
  have hkek : r.newRootKeys.kek = root'.kek := (ideal.unwrapKey_wrapKey_eq_ok.mp hunwrap).1
  have hparams : r.newParams = params := (ideal.kek_inj hr.rootKeys hroot' hkek).2
  apply hsalt w.draws (le_refl _)
  rw [← hr.salt, hparams]

/-- Behind both vault writes, a passphrase reads the database exactly when it is the new one and
every row has been stored. -/
theorem crashConsistent_storeRows (ideal : P.Ideal) (h : OpenVault old root evk w)
    (hnew : new ≠ "") (hr : r.For new evk w) (j : ℕ)
    (hdb : t.db = PreparedRotation.storeRows r.newGeneration (r.rewrapped.take j)
      (r.replaceVault w.db)) :
    CrashConsistent old new t ↔
      ∀ row ∈ t.db.deks, ∃ dek, OpensUnder r.newVaultKey row dek := by
  obtain ⟨v, hv, -⟩ := h.stored
  obtain ⟨hstate, hconfig⟩ := PreparedRotation.storeRows_vault r.newGeneration
    (r.rewrapped.take j) (r.replaceVault w.db)
  have hconfig' : t.db.vaultConfig = some r.newParams.toRecord := by rw [hdb, hconfig]; rfl
  have hv' : t.db.vaultState = some (r.record v) := by
    rw [hdb, hstate, PreparedRotation.replaceVault, hv]
    rfl
  have hfits : r.newParams.Fits := (toRootKdfParams_eq_ok.mp hr.params).2
  -- any passphrase that gets through is the new one and yields the new key
  have hkeys : ∀ passphrase, ReadableWith passphrase t →
      ∀ row ∈ t.db.deks, ∃ dek, OpensUnder r.newVaultKey row dek := by
    intro passphrase hread
    obtain ⟨-, root', evk', -, hunwrap, hrows⟩ :=
      (readableWith_iff hconfig' hfits hv' rfl).mp hread
    have hevk : r.newVaultKey = evk' := (ideal.unwrapKey_wrapKey_eq_ok.mp hunwrap).2
    rw [hevk]
    exact hrows
  constructor
  · intro hconsistent
    rcases hconsistent with hread | hread
    · exact hkeys old hread
    · exact hkeys new hread
  · intro hrows
    apply Or.inr
    apply (readableWith_iff hconfig' hfits hv' rfl).mpr
    exact ⟨hnew, r.newRootKeys, r.newVaultKey, hr.rootKeys, ideal.unwrapKey_wrapKey _ _, hrows⟩

/-- The rows all open under the new key exactly when every blob has been stored. -/
theorem rows_open_iff (ideal : P.Ideal) (h : OpenVault old root evk w) (hr : r.For new evk w)
    (j : ℕ) :
    (∀ row ∈ (PreparedRotation.storeRows r.newGeneration (r.rewrapped.take j)
        (r.replaceVault w.db)).deks, ∃ dek, OpensUnder r.newVaultKey row dek) ↔
      w.db.deks.length ≤ j := by
  have hids := hr.map_fst_rewrapped
  have hlength : (orderBy (·.dekId) w.db.deks).length = w.db.deks.length :=
    (orderBy_perm _ _).length_eq
  have hnodup : ((orderBy (·.dekId) w.db.deks).map (·.dekId)).Nodup :=
    ((orderBy_perm _ _).map _).nodup_iff.mpr h.distinct
  constructor
  · intro hrows
    by_contra hj
    -- the row at the cut keeps its old blob
    have hlt : j < (orderBy (·.dekId) w.db.deks).length := by omega
    let row := (orderBy (·.dekId) w.db.deks)[j]
    have hrow : row ∈ w.db.deks := (mem_orderBy _ _ _).mp (List.getElem_mem hlt)
    have hnot : row.dekId ∉ (r.rewrapped.take j).map Prod.fst := by
      rw [List.map_take, hids]
      intro hmem
      obtain ⟨i, hi, heq⟩ := List.mem_take_iff_getElem.mp hmem
      have hj' : j < ((orderBy (·.dekId) w.db.deks).map (·.dekId)).length := by
        rw [List.length_map]
        exact hlt
      have hi' : i < ((orderBy (·.dekId) w.db.deks).map (·.dekId)).length := by omega
      have hget : ((orderBy (·.dekId) w.db.deks).map (·.dekId))[i] =
          ((orderBy (·.dekId) w.db.deks).map (·.dekId))[j] := by
        rw [heq, List.getElem_map]
      have hij : i = j := hnodup.getElem_inj_iff.mp hget
      omega
    obtain ⟨dek, hdek⟩ := h.rows row hrow
    obtain ⟨dek', hopen⟩ := hrows row (PreparedRotation.mem_storeRows_of_notMem hrow hnot)
    have hkey : evk = r.newVaultKey := ((hdek.opensUnder_iff ideal).mp hopen).1
    apply h.freshKey (w.draws + 1) (by omega)
    rw [hkey, hr.vaultKey]
  · intro hj row hrow
    have hall : r.rewrapped.take j = r.rewrapped := by
      apply List.take_of_length_le
      rw [hr.length_rewrapped]
      exact hj
    rw [hall] at hrow
    obtain ⟨old, hold, hid, hcase⟩ := PreparedRotation.mem_storeRows hrow
    rcases hcase with ⟨blob, hblob, hwrapped, -⟩ | ⟨hnot, _⟩
    · obtain ⟨dek, hdek⟩ := hr.blob_eq hblob
      have hblob' : blob = wrapKey r.newVaultKey dek := hdek
      rw [hblob'] at hwrapped
      exact ⟨dek, _, hwrapped, ideal.unwrapKey_wrapKey _ _⟩
    · exfalso
      apply hnot
      rw [hids]
      exact List.mem_map_of_mem ((mem_orderBy _ _ _).mpr hold)

end Consistent

/-- Stopping a rotation leaves a consistent database exactly when the rotation is not one that
gets to its writes, or stops before the first of them or behind the last. -/
theorem rotateVaultKey_crash_iff (ideal : P.Ideal) {old new : String} {root : RootKeys P}
    {evk : P.Key} {w : VaultWorld P} (h : OpenVault old root evk w) (n : ℕ) :
    CrashConsistent old new ((rotateVaultKey new).cut n w) ↔
      ¬ RotationReady new evk w ∨ n ≤ 6 ∨ 8 + w.db.deks.length ≤ n := by
  by_cases hready : RotationReady new evk w
  · obtain ⟨r, hr, hcut⟩ := cut_rotateVaultKey h.slot hready
    have hdb := hcut n
    simp only [hready, not_true_eq_false, false_or]
    by_cases hbefore : n ≤ 6
    · have hzero : n - 6 = 0 := by omega
      rw [hzero] at hdb
      exact iff_of_true (crashConsistent_unchanged ideal h hdb) (Or.inl hbefore)
    by_cases hfirst : n = 7
    · subst hfirst
      apply iff_of_false
      · intro hconsistent
        rcases hconsistent with hread | hread
        · exact not_readable_replaceState ideal h hr hdb old hread
        · exact not_readable_replaceState ideal h hr hdb new hread
      · omega
    obtain ⟨j, rfl⟩ : ∃ j, n = 8 + j := ⟨n - 8, by omega⟩
    have hsub : 8 + j - 6 = j + 2 := by omega
    rw [hsub] at hdb
    have hrows := rows_open_iff ideal h hr j
    rw [crashConsistent_storeRows ideal h hready.nonempty hr j hdb, hdb]
    refine hrows.trans ?_
    omega
  · have hdb := cut_rotateVaultKey_not_ready h.slot hready n
    exact iff_of_true (crashConsistent_unchanged ideal h hdb) (Or.inl hready)

/-! ## A vault with one DEK -/

def oneDekParams : RootKdfParams := targetKdfParams [1]

def oneDekRoot : RootKeys symbolic :=
  let master := SymbolicKey.argon2 "correct horse" oneDekParams
  ⟨master, .expand master vaultKeyInfo, .expand master kekV2Info⟩

/-- A vault unlocked with `correct horse`, with the zero key as its vault key and one DEK. -/
def oneDekVault : VaultWorld symbolic :=
  { db :=
      { vaultState := some
          { masterKeySalt := [1]
            argon2Params := oneDekParams.toArgon2Params
            vaultId := "local-vault-01"
            encryptedVaultKey := some (.exact (oneDekRoot.kek, SymbolicKey.zero))
            vaultKeyGeneration := some 1 }
        vaultConfig := some oneDekParams.toRecord
        deks := [{ dekId := 1, inodeId := 1, wrappedDek := .exact (.zero, .random 0),
                   keyVersion := 1, vaultKeyGen := 1 }]
        dekSequence := 1 }
    inner := some (.withEnvelopeKey oneDekRoot.masterKey oneDekRoot.vaultKey SymbolicKey.zero)
    draws := 1 }

theorem oneDekVault_open :
    OpenVault "correct horse" oneDekRoot SymbolicKey.zero oneDekVault where
  nonempty := by decide
  config := by
    refine ⟨oneDekParams, rfl, by decide, rfl, ?_⟩
    intro n _ heq
    have hmem : (1 : UInt8) ∈ List.replicate n (0 : UInt8) := by
      have hsalt : List.replicate n (0 : UInt8) = [1] := heq
      rw [hsalt]
      exact List.mem_singleton_self 1
    exact absurd (List.eq_of_mem_replicate hmem) (by decide)
  stored := ⟨_, rfl, rfl⟩
  slot := rfl
  rows := by
    intro row hrow
    obtain rfl := List.mem_singleton.mp hrow
    exact ⟨SymbolicKey.random 0, rfl⟩
  distinct := by decide
  freshKey := by
    intro n _ heq
    cases heq

theorem oneDekVault_ready : RotationReady "battery staple" SymbolicKey.zero oneDekVault where
  nonempty := by decide
  derives := ⟨_, oneDekParams, rfl, rfl, rfl⟩
  rows := by
    intro row hrow
    obtain ⟨dek, hdek⟩ := oneDekVault_open.rows row hrow
    exact ⟨dek, (hdek.opensUnder_iff symbolic_ideal).mpr ⟨rfl, rfl⟩⟩

/-- Stopping right behind the first write of a rotation loses the one DEK of the vault. -/
theorem crash_loses_oneDekVault :
    ¬ ∀ (old new : String) (root : RootKeys symbolic) (evk : symbolic.Key)
      (w : VaultWorld symbolic) (n : ℕ), OpenVault old root evk w →
      CrashConsistent old new ((rotateVaultKey new).cut n w) := by
  intro hall
  have hconsistent := hall "correct horse" "battery staple" oneDekRoot SymbolicKey.zero oneDekVault
    7 oneDekVault_open
  obtain ⟨r, hr, hcut⟩ := cut_rotateVaultKey oneDekVault_open.slot oneDekVault_ready
  rcases hconsistent with hread | hread
  · exact not_readable_replaceState symbolic_ideal oneDekVault_open hr (hcut 7) _ hread
  · exact not_readable_replaceState symbolic_ideal oneDekVault_open hr (hcut 7) _ hread

/-- Stopping behind the last write of the same rotation is harmless. -/
theorem rotateVaultKey_crash_oneDekVault :
    CrashConsistent "correct horse" "battery staple"
      ((rotateVaultKey "battery staple").cut 9 oneDekVault) :=
  (rotateVaultKey_crash_iff symbolic_ideal oneDekVault_open 9).mpr (Or.inr (Or.inr (by decide)))

end VaultKeyStore

end OmniDrive
