import OmniDrive.Crypto.Symbolic
import OmniDrive.Library.GuardedRuns
import OmniDrive.Vault.RotationOutcome

/-!
# The tables of a lazily re-wrapped vault

The runs of unlocks, locks, new DEKs, revocation rotations and batches of re-wraps, and the
invariant that relates the DEK rows, the queue and the two keys in memory: a row is under the
current key, or it is queued and under the previous one. Locks, unlocks and new DEKs keep it.
-/

namespace OmniDrive

open StatementProgram Tables

variable {P : Primitives}

namespace VaultKeyStore

/-! ## Runs -/

/-- The operations of a run. -/
inductive DekOp where
  | unlock
  | lock
  | createPackDek (creatingInodeId : ℤ)
  | getOrCreateDek (inodeId : ℤ)
  | rotateForRevocation
  | processRewrapBatch (batchSize : ℤ)
  deriving DecidableEq, Repr

/-- A world together with the DEK that each row was minted with. -/
structure DekRun (P : Primitives) where
  world : VaultWorld P
  minted : ℤ → Option P.Key

namespace DekRun

/-- Remember the DEK that was first returned for a row. -/
def record (minted : ℤ → Option P.Key) (dekId : ℤ) (dek : P.Key) : ℤ → Option P.Key :=
  fun i => if i = dekId ∧ minted i = none then some dek else minted i

/-- The run after an operation that returns a DEK. -/
def afterMint (s : DekRun P) (r : Except VaultError (ℤ × P.Key) × VaultWorld P) : DekRun P :=
  match r with
  | (.ok (dekId, dek), w) => ⟨w, record s.minted dekId dek⟩
  | (.error _, w) => ⟨w, s.minted⟩

end DekRun

/-- One operation, with the right passphrase for unlocks, whatever its outcome. -/
def DekOp.step (passphrase : String) (op : DekOp) (s : DekRun P) : DekRun P :=
  match op with
  | .unlock => ⟨((VaultKeyStore.unlock passphrase).run s.world).2, s.minted⟩
  | .lock => ⟨(VaultKeyStore.lock.run s.world).2, s.minted⟩
  | .createPackDek inodeId => s.afterMint ((VaultKeyStore.createPackDek inodeId).run s.world)
  | .getOrCreateDek inodeId => s.afterMint ((VaultKeyStore.getOrCreateDek inodeId).run s.world)
  | .rotateForRevocation => ⟨(VaultKeyStore.rotateForRevocation.run s.world).2, s.minted⟩
  | .processRewrapBatch batchSize =>
    ⟨((VaultKeyStore.processRewrapBatch batchSize).run s.world).2, s.minted⟩

/-- While the vault is unlocked, `unwrap_dek_bytes` gives back the DEK that each row was minted
with. -/
def DeksReadable (s : DekRun P) : Prop :=
  s.world.inner ≠ none → ∀ row ∈ s.world.db.deks, ∃ dek, s.minted row.dekId = some dek ∧
    (unwrapDekBytes row.wrappedDek).run s.world = (.ok dek, s.world)

/-! ## The conditions on the operations -/

/-- Every row opens under the envelope key stored in the vault row. -/
def StoredKeyOpensAll (passphrase : String) (db : VaultDb P) : Prop :=
  ∃ root v wrapped evk, RootKeysFor db passphrase root ∧ db.vaultState = some v ∧
    v.encryptedVaultKey = some (.exact wrapped) ∧ unwrapKey root.kek wrapped = .ok evk ∧
    ∀ row ∈ db.deks, ∃ dek, OpensUnder evk row dek

/-- Every row opens under the envelope key in memory. -/
def CurrentKeyOpensAll (w : VaultWorld P) : Prop :=
  ∀ cur, w.inner.bind (·.envelopeVaultKey) = some cur →
    ∀ row ∈ w.db.deks, ∃ dek, OpensUnder cur row dek

/-- A row waits to be re-wrapped from the previous key in memory. -/
def RowsWait (w : VaultWorld P) : Prop :=
  (w.inner.bind (·.previousEnvelopeVaultKey)).isSome ∧
    ∃ item ∈ w.db.rewrapQueue, item.status = .pending

/-- The operation drops no key that a row needs: an unlock comes when every row opens under the
stored key, a rotation that goes through comes when every row opens under the current key, and
a batch of size zero comes when no row waits. -/
def DekOp.DropsNothing (passphrase : String) (op : DekOp) (s : DekRun P) : Prop :=
  match op with
  | .unlock => StoredKeyOpensAll passphrase s.world.db
  | .rotateForRevocation =>
    ∀ keys, s.world.inner = some keys → RevocationReady keys.masterKey s.world.db →
      CurrentKeyOpensAll s.world
  | .processRewrapBatch batchSize => batchSize = 0 → ¬ RowsWait s.world
  | _ => True

/-! ## The invariant -/

/-- No draw from position `d` on is this key. -/
def Fresh (d : ℕ) (key : P.Key) : Prop := ∀ n, d ≤ n → P.randomKey n ≠ key

theorem Fresh.mono {d d' : ℕ} {key : P.Key} (h : Fresh d key) (hd : d ≤ d') : Fresh d' key :=
  fun n hn => h n (hd.trans hn)

/-- A draw is fresh for the positions behind it. -/
theorem fresh_randomKey (ideal : P.Ideal) (d : ℕ) : Fresh (d + 1) (P.randomKey d) := by
  intro n hn heq
  have hsame := ideal.randomKey_inj heq
  omega

/-- The table of DEKs and the queue, locked or unlocked: every row holds the DEK it was minted
with, every queued row is pending and not under the stored key, and identifiers and generations
only grow. -/
structure DekTable (minted : ℤ → Option P.Key) (stored : P.Key) (db : VaultDb P) : Prop where
  wrapped : ∀ row ∈ db.deks, ∃ key dek, minted row.dekId = some dek ∧ WrappedUnder key row dek
  pending : ∀ item ∈ db.rewrapQueue, item.status = .pending
  stale : ∀ item ∈ db.rewrapQueue, ∃ row ∈ db.deks, row.dekId = item.dekId ∧
    ∃ key dek, WrappedUnder key row dek ∧ key ≠ stored
  distinct : (db.deks.map (·.dekId)).Nodup
  sequence : ∀ row ∈ db.deks, row.dekId ≤ db.dekSequence
  ghost : ∀ i, minted i ≠ none → i ≤ db.dekSequence
  generation : ∀ row ∈ db.deks, row.vaultKeyGen ≤ generationOf db

/-- The table of DEKs against the keys in memory: a row is under the current key, or it is queued
and under the previous one. -/
structure LazyTable (cur : P.Key) (prev : Option P.Key) (db : VaultDb P) : Prop where
  split : ∀ row ∈ db.deks, (∃ dek, WrappedUnder cur row dek) ∨
    ∃ p dek, prev = some p ∧ WrappedUnder p row dek ∧
      row.dekId ∈ db.rewrapQueue.map (·.dekId)
  queued : ∀ item ∈ db.rewrapQueue, ∃ p, prev = some p ∧
    ∃ row ∈ db.deks, row.dekId = item.dekId ∧ ∃ dek, WrappedUnder p row dek
  ne : ∀ p, prev = some p → p ≠ cur

/-- The keys in memory and the table belong together. -/
def SlotReads (root : RootKeys P) (w : VaultWorld P) : Prop :=
  w.inner = none ∨ ∃ cur prev, w.inner = some ⟨root.masterKey, root.vaultKey, some cur, prev⟩ ∧
    LazyTable cur prev w.db ∧ Fresh w.draws cur ∧ ∀ p, prev = some p → Fresh w.draws p

/-- A vault whose DEKs are readable now or after the next unlock at a good moment. -/
structure LazyVaultWith (passphrase : String) (s : DekRun P) (root : RootKeys P)
    (v : VaultRecord P) (stored : P.Key) : Prop where
  nonempty : passphrase ≠ ""
  rootKeys : RootKeysFor s.world.db passphrase root
  state : s.world.db.vaultState = some v
  key : v.encryptedVaultKey = some (.exact (wrapKey root.kek stored))
  freshStored : Fresh s.world.draws stored
  table : DekTable s.minted stored s.world.db
  slot : SlotReads root s.world

def LazyVault (passphrase : String) (s : DekRun P) : Prop :=
  ∃ root v stored, LazyVaultWith passphrase s root v stored

section Invariant

variable {passphrase : String} {s : DekRun P} {root : RootKeys P} {v : VaultRecord P}
variable {stored cur : P.Key} {prev : Option P.Key} {db : VaultDb P}
variable {minted : ℤ → Option P.Key} {i : ℤ}

/-- Every row of the invariant reads back its own DEK. -/
theorem deksReadable_of_lazyVault (ideal : P.Ideal) (h : LazyVault passphrase s) :
    DeksReadable s := by
  obtain ⟨root, v, stored, h⟩ := h
  intro hunlocked row hrow
  obtain hnone | ⟨cur, prev, hinner, hlazy, -, -⟩ := h.slot
  · exact absurd hnone hunlocked
  obtain ⟨key, dek, hminted, hwrapped⟩ := h.table.wrapped row hrow
  refine ⟨dek, hminted, (run_unwrapDekBytes hinner row dek).mpr ⟨cur, rfl, ?_⟩⟩
  obtain ⟨dek', hcur⟩ | ⟨p, dek', hp, hprev, -⟩ := hlazy.split row hrow
  · have hopen := (hcur.opensUnder_iff ideal).mpr ⟨rfl, rfl⟩
    obtain ⟨-, hdek⟩ := (hwrapped.opensUnder_iff ideal).mp hopen
    rw [← hdek] at hopen
    exact Or.inl hopen
  · have hopen := (hprev.opensUnder_iff ideal).mpr ⟨rfl, rfl⟩
    obtain ⟨-, hdek⟩ := (hwrapped.opensUnder_iff ideal).mp hopen
    rw [← hdek] at hopen
    refine Or.inr ⟨?_, p, hp, hopen⟩
    intro ⟨dek'', hother⟩
    exact hlazy.ne p hp ((hprev.opensUnder_iff ideal).mp hother).1

/-- A row under a key that the lookup does not try is unreadable. -/
theorem not_deksReadable (ideal : P.Ideal) {keys : UnlockedVaultKeys P}
    {row : WrappedDekRecord P} {key dek : P.Key} (hinner : s.world.inner = some keys)
    (hrow : row ∈ s.world.db.deks) (hwrapped : WrappedUnder key row dek)
    (hcur : keys.envelopeVaultKey ≠ some key) (hprev : keys.previousEnvelopeVaultKey ≠ some key) :
    ¬ DeksReadable s := by
  intro hreadable
  obtain ⟨dek', -, hrun⟩ := hreadable (by rw [hinner]; simp) row hrow
  obtain ⟨c, hc, hopen | ⟨-, p, hp, hopen⟩⟩ := (run_unwrapDekBytes hinner row dek').mp hrun
  · obtain ⟨rfl, -⟩ := (hwrapped.opensUnder_iff ideal).mp hopen
    exact hcur hc
  · obtain ⟨rfl, -⟩ := (hwrapped.opensUnder_iff ideal).mp hopen
    exact hprev hp

/-- Once every row is under the current key, nothing is queued. -/
theorem queue_empty (ideal : P.Ideal) (h : LazyTable cur prev db)
    (hall : ∀ row ∈ db.deks, ∃ dek, OpensUnder cur row dek) : db.rewrapQueue = [] := by
  apply List.eq_nil_iff_forall_not_mem.mpr
  intro item hitem
  obtain ⟨p, hp, row, hrow, -, dek, hdek⟩ := h.queued item hitem
  obtain ⟨dek', hopen⟩ := hall row hrow
  exact h.ne p hp ((hdek.opensUnder_iff ideal).mp hopen).1

/-- Without queued rows, every row is under the current key. -/
theorem wrappedUnder_of_queue_empty (h : LazyTable cur prev db) (hempty : db.rewrapQueue = []) :
    ∀ row ∈ db.deks, ∃ dek, WrappedUnder cur row dek := by
  intro row hrow
  obtain hcur | ⟨p, dek, -, -, hqueued⟩ := h.split row hrow
  · exact hcur
  · rw [hempty] at hqueued
    cases hqueued

/-- With an empty queue, the previous key is not needed. -/
theorem LazyTable.drop (h : LazyTable cur prev db) (hempty : db.rewrapQueue = []) :
    LazyTable cur none db where
  split row hrow := Or.inl (wrappedUnder_of_queue_empty h hempty row hrow)
  queued item hitem := by
    rw [hempty] at hitem
    cases hitem
  ne p hp := by cases hp

/-! ## Lock and unlock -/

/-- A lock keeps the tables. -/
theorem lazyVault_lock (h : LazyVault passphrase s) :
    LazyVault passphrase (DekOp.lock.step passphrase s) := by
  obtain ⟨root, v, stored, h⟩ := h
  exact ⟨root, v, stored, h.nonempty, h.rootKeys, h.state, h.key, h.freshStored, h.table,
    Or.inl rfl⟩

/-- The world after an unlock: the stored key is current, and no previous key is held. -/
theorem unlock_world (ideal : P.Ideal) (h : LazyVaultWith passphrase s root v stored) :
    ∃ w', DekOp.unlock.step passphrase s = ⟨w', s.minted⟩ ∧
      SameVault { s.world with
        inner := some (.withEnvelopeKey root.masterKey root.vaultKey stored) } w' := by
  obtain ⟨w', hrun, hsame⟩ := run_unlock_stored h.nonempty h.rootKeys h.state h.key
    (ideal.unwrapKey_wrapKey root.kek stored)
  refine ⟨w', ?_, hsame⟩
  rw [DekOp.step, hrun]

/-- The condition on an unlock, in terms of the invariant. -/
theorem storedKeyOpensAll_iff (ideal : P.Ideal) (h : LazyVaultWith passphrase s root v stored) :
    StoredKeyOpensAll passphrase s.world.db ↔
      ∀ row ∈ s.world.db.deks, ∃ dek, OpensUnder stored row dek := by
  constructor
  · intro ⟨root', v', wrapped, evk, hroot, hv, hkey, hunwrap, hall⟩
    obtain ⟨config, params, hconfig, hparams, hderive⟩ := h.rootKeys
    obtain ⟨config', params', hconfig', hparams', hderive'⟩ := hroot
    rw [hconfig] at hconfig'
    cases hconfig'
    rw [hparams] at hparams'
    cases hparams'
    rw [hderive] at hderive'
    cases hderive'
    rw [h.state] at hv
    cases hv
    rw [h.key] at hkey
    cases hkey
    rw [ideal.unwrapKey_wrapKey] at hunwrap
    cases hunwrap
    exact hall
  · intro hall
    exact ⟨root, v, _, stored, h.rootKeys, h.state, h.key, ideal.unwrapKey_wrapKey _ _, hall⟩

/-- An unlock at a good moment keeps every DEK readable. -/
theorem lazyVault_unlock (ideal : P.Ideal) (h : LazyVault passphrase s)
    (hall : StoredKeyOpensAll passphrase s.world.db) :
    LazyVault passphrase (DekOp.unlock.step passphrase s) := by
  obtain ⟨root, v, stored, h⟩ := h
  rw [storedKeyOpensAll_iff ideal h] at hall
  obtain ⟨w', hstep, hinner, hdraws, users, hdb⟩ := unlock_world ideal h
  rw [hstep]
  have hempty : s.world.db.rewrapQueue = [] := by
    apply List.eq_nil_iff_forall_not_mem.mpr
    intro item hitem
    obtain ⟨row, hrow, -, key, dek, hwrapped, hne⟩ := h.table.stale item hitem
    obtain ⟨dek', hopen⟩ := hall row hrow
    exact hne ((hwrapped.opensUnder_iff ideal).mp hopen).1
  have hlazy : LazyTable stored none w'.db := by
    rw [hdb]
    constructor
    · intro row hrow
      obtain ⟨key, dek, -, hwrapped⟩ := h.table.wrapped row hrow
      obtain ⟨dek', hopen⟩ := hall row hrow
      obtain ⟨rfl, -⟩ := (hwrapped.opensUnder_iff ideal).mp hopen
      exact Or.inl ⟨dek, hwrapped⟩
    · intro item hitem
      rw [show ({ s.world.db with users } : VaultDb P).rewrapQueue = [] from hempty] at hitem
      cases hitem
    · intro p hp
      cases hp
  refine ⟨root, v, stored, h.nonempty, ?_, ?_, h.key, h.freshStored.mono hdraws, ?_,
    Or.inr ⟨stored, none, hinner, hlazy, h.freshStored.mono hdraws, fun p hp => by cases hp⟩⟩
  · rw [hdb]
    exact h.rootKeys
  · rw [hdb]
    exact h.state
  · rw [hdb]
    exact ⟨h.table.wrapped, h.table.pending, h.table.stale, h.table.distinct,
      h.table.sequence, h.table.ghost, h.table.generation⟩

/-- An unlock at a bad moment makes some DEK unreadable. -/
theorem not_deksReadable_unlock (ideal : P.Ideal) (h : LazyVault passphrase s)
    (hall : ¬ StoredKeyOpensAll passphrase s.world.db) :
    ¬ DeksReadable (DekOp.unlock.step passphrase s) := by
  obtain ⟨root, v, stored, h⟩ := h
  rw [storedKeyOpensAll_iff ideal h] at hall
  obtain ⟨w', hstep, hinner, hdraws, users, hdb⟩ := unlock_world ideal h
  rw [hstep]
  simp only [not_forall] at hall
  obtain ⟨row, hrow, hno⟩ := hall
  obtain ⟨key, dek, -, hwrapped⟩ := h.table.wrapped row hrow
  have hne : stored ≠ key := by
    intro heq
    exact hno ⟨dek, (hwrapped.opensUnder_iff ideal).mpr ⟨heq.symm, rfl⟩⟩
  have hrow' : row ∈ w'.db.deks := by
    rw [hdb]
    exact hrow
  apply not_deksReadable (s := ⟨w', s.minted⟩) ideal hinner hrow' hwrapped
  · intro heq
    exact hne (Option.some.inj heq)
  · intro heq
    cases heq

/-! ## New DEKs -/

/-- A row that is not in the table yet is recorded with its DEK, and no other row changes. -/
theorem record_eq (hfresh : minted i = none) (dek : P.Key) :
    DekRun.record minted i dek = Function.update minted i (some dek) := by
  funext j
  by_cases hj : j = i
  · rw [hj, Function.update_self, DekRun.record, if_pos ⟨rfl, hfresh⟩]
  · rw [Function.update_of_ne hj, DekRun.record, if_neg fun hc => hj hc.1]

/-- A row that has been recorded keeps its DEK. -/
theorem record_of_ne_none (hknown : minted i ≠ none) (dek : P.Key) :
    DekRun.record minted i dek = minted := by
  funext j
  rw [DekRun.record, if_neg]
  rintro ⟨rfl, hnone⟩
  exact hknown hnone

/-- No row has the next identifier. -/
theorem DekTable.next_unused (h : DekTable minted stored db) : minted (db.dekSequence + 1) = none := by
  by_contra hsome
  have hle := h.ghost _ hsome
  omega

/-- Every row of the table has been recorded. -/
theorem DekTable.recorded (h : DekTable minted stored db) {row : WrappedDekRecord P}
    (hrow : row ∈ db.deks) : minted row.dekId ≠ none := by
  obtain ⟨key, dek, hminted, -⟩ := h.wrapped row hrow
  rw [hminted]
  simp

/-- A row of the table keeps its record when the next identifier is recorded. -/
theorem DekTable.update_row (h : DekTable minted stored db) {row : WrappedDekRecord P}
    (hrow : row ∈ db.deks) (dek : P.Key) :
    Function.update minted (db.dekSequence + 1) (some dek) row.dekId = minted row.dekId := by
  apply Function.update_of_ne
  have hle := h.sequence row hrow
  omega

/-- Appending a row keeps the table. -/
theorem DekTable.appendDek (h : DekTable minted stored db) (inodeId keyVersion : ℤ)
    (cur dek : P.Key) :
    DekTable (Function.update minted (db.dekSequence + 1) (some dek)) stored
      (Db.appendDek inodeId (wrapKey cur dek) keyVersion (generationOf db) db) where
  wrapped row hrow := by
    rcases List.mem_append.mp hrow with hold | hnew
    · rw [h.update_row hold]
      exact h.wrapped row hold
    · rw [List.mem_singleton.mp hnew]
      exact ⟨cur, dek, Function.update_self _ _ _, rfl⟩
  pending := h.pending
  stale item hitem := by
    obtain ⟨row, hrow, hid⟩ := h.stale item hitem
    exact ⟨row, List.mem_append_left _ hrow, hid⟩
  distinct := by
    apply nodup_append_fresh h.distinct
    intro row hrow
    have hle := h.sequence row hrow
    simp only
    omega
  sequence row hrow := by
    rcases List.mem_append.mp hrow with hold | hnew
    · have hle := h.sequence row hold
      simp only [Db.appendDek]
      omega
    · rw [List.mem_singleton.mp hnew]
      exact le_rfl
  ghost i hi := by
    by_cases hnext : i = db.dekSequence + 1
    · exact hnext.le
    · rw [Function.update_of_ne hnext] at hi
      have hle := h.ghost i hi
      simp only [Db.appendDek]
      omega
  generation row hrow := by
    rcases List.mem_append.mp hrow with hold | hnew
    · exact h.generation row hold
    · rw [List.mem_singleton.mp hnew]
      exact le_rfl

/-- A row appended under the current key needs no previous key. -/
theorem LazyTable.appendDek (h : LazyTable cur prev db) (inodeId keyVersion : ℤ)
    (dek : P.Key) :
    LazyTable cur prev
      (Db.appendDek inodeId (wrapKey cur dek) keyVersion (generationOf db) db) where
  split row hrow := by
    rcases List.mem_append.mp hrow with hold | hnew
    · exact h.split row hold
    · rw [List.mem_singleton.mp hnew]
      exact Or.inl ⟨dek, rfl⟩
  queued item hitem := by
    obtain ⟨p, hp, row, hrow, hid⟩ := h.queued item hitem
    exact ⟨p, hp, row, List.mem_append_left _ hrow, hid⟩
  ne := h.ne

/-- A new DEK under the current key keeps every DEK readable. -/
theorem lazyVault_mint (h : LazyVaultWith passphrase s root v stored)
    (hinner : s.world.inner = some ⟨root.masterKey, root.vaultKey, some cur, prev⟩)
    (hlazy : LazyTable cur prev s.world.db) (hcur : Fresh s.world.draws cur)
    (hprev : ∀ p, prev = some p → Fresh s.world.draws p) (inodeId keyVersion : ℤ) :
    LazyVault passphrase (s.afterMint
      (.ok (s.world.db.dekSequence + 1, P.randomKey s.world.draws),
        dekInserted cur inodeId keyVersion s.world)) := by
  have hdraws : s.world.draws ≤ s.world.draws + 1 := Nat.le_succ _
  rw [DekRun.afterMint, record_eq h.table.next_unused]
  refine ⟨root, v, stored, h.nonempty, h.rootKeys, h.state, h.key, h.freshStored.mono hdraws,
    h.table.appendDek inodeId keyVersion cur _, Or.inr ⟨cur, prev, hinner, ?_⟩⟩
  exact ⟨hlazy.appendDek inodeId keyVersion _, hcur.mono hdraws,
    fun p hp => (hprev p hp).mono hdraws⟩

/-- A new pack DEK keeps every DEK readable. -/
theorem lazyVault_createPackDek (h : LazyVault passphrase s) (inodeId : ℤ) :
    LazyVault passphrase ((DekOp.createPackDek inodeId).step passphrase s) := by
  have hinv := h
  obtain ⟨root, v, stored, h⟩ := h
  obtain hnone | ⟨cur, prev, hinner, hlazy, hcur, hprev⟩ := h.slot
  · have hrun := run_createPackDek_locked inodeId (w := s.world) (by rw [hnone]; rfl)
    rw [DekOp.step, hrun]
    exact hinv
  · have hrun := run_createPackDek inodeId hinner rfl
    rw [DekOp.step, hrun]
    exact lazyVault_mint h hinner hlazy hcur hprev inodeId _

/-- The DEK found of an inode is a row of the table. -/
theorem mem_of_latestDek {inodeId : ℤ} {row : WrappedDekRecord P}
    (hlatest : Db.latestDek inodeId db = some row) : row ∈ db.deks := by
  have hmem := List.mem_of_mem_head? (Option.mem_def.mpr hlatest)
  rw [mem_orderBy] at hmem
  exact List.mem_of_mem_filter hmem

/-- Looking up or making the DEK of an inode keeps every DEK readable. -/
theorem lazyVault_getOrCreateDek (h : LazyVault passphrase s) (inodeId : ℤ) :
    LazyVault passphrase ((DekOp.getOrCreateDek inodeId).step passphrase s) := by
  have hinv := h
  obtain ⟨root, v, stored, h⟩ := h
  rcases hlatest : Db.latestDek inodeId s.world.db with _ | row
  · obtain hnone | ⟨cur, prev, hinner, hlazy, hcur, hprev⟩ := h.slot
    · have hrun := run_getOrCreateDek_locked inodeId (w := s.world) (by rw [hnone]; rfl)
      rw [DekOp.step, hrun]
      exact hinv
    · have hrun := run_getOrCreateDek_new inodeId hlatest hinner rfl
      rw [DekOp.step, hrun]
      exact lazyVault_mint h hinner hlazy hcur hprev inodeId _
  · obtain ⟨hworld, hid⟩ := run_getOrCreateDek_existing inodeId hlatest
    have hknown := h.table.recorded (mem_of_latestDek hlatest)
    rcases hrun : (getOrCreateDek inodeId).run s.world with ⟨e | ⟨dekId, dek⟩, w'⟩
    · rw [hrun] at hworld
      rw [DekOp.step, hrun, show w' = s.world from hworld]
      exact hinv
    · rw [hrun] at hworld hid
      have hsame : dekId = row.dekId := hid dekId dek rfl
      rw [← hsame] at hknown
      rw [DekOp.step, hrun, show w' = s.world from hworld, DekRun.afterMint,
        record_of_ne_none hknown]
      exact hinv

end Invariant

end VaultKeyStore

end OmniDrive
