import OmniDrive.Vault.LazyTable

/-!
# DEKs over rotations and lazy re-wrapping

After a revocation rotation the old DEKs stay wrapped under the previous envelope key until the
queue has been worked off. The previous key is held in memory only. A DEK stays readable as long
as nothing drops that key while rows wait: an unlock, a further rotation or a batch of size
zero at the wrong moment does.
-/

namespace OmniDrive

open StatementProgram Tables

variable {P : Primitives}

namespace VaultKeyStore

section Invariant

variable {passphrase : String} {s : DekRun P} {root : RootKeys P} {v : VaultRecord P}
variable {stored cur : P.Key} {prev : Option P.Key} {db : VaultDb P}
variable {minted : ℤ → Option P.Key}

/-! ## Revocation rotations -/

/-- Replacing the stored key of a vault row. -/
theorem generationOf_replaceStoredKey {v : VaultRecord P} (hv : db.vaultState = some v)
    (masterKey newKey : P.Key) :
    generationOf (replaceStoredKey masterKey newKey db) = generationOf db + 1 := by
  simp [generationOf, replaceStoredKey, hv]

/-- The table fits a new stored key that no queued row is under. -/
theorem DekTable.replaceStoredKey {v : VaultRecord P} (h : DekTable minted stored db)
    (hv : db.vaultState = some v) (masterKey : P.Key) {newKey : P.Key}
    (hnew : ∀ item ∈ db.rewrapQueue, ∃ row ∈ db.deks, row.dekId = item.dekId ∧
      ∃ key dek, WrappedUnder key row dek ∧ key ≠ newKey) :
    DekTable minted newKey (replaceStoredKey masterKey newKey db) where
  wrapped := h.wrapped
  pending := h.pending
  stale := hnew
  distinct := h.distinct
  sequence := h.sequence
  ghost := h.ghost
  generation row hrow := by
    have hle := h.generation row hrow
    rw [generationOf_replaceStoredKey hv]
    omega

/-- The queue item of a row. -/
def queueItem (target : ℤ) (row : WrappedDekRecord P) : RewrapQueueItem :=
  { dekId := row.dekId
    sourceVkGeneration := row.vaultKeyGen
    targetVkGeneration := target
    status := .pending }

/-- The queue after every DEK of an older generation has been queued. -/
theorem mem_enqueueOlder {target : ℤ} {item : RewrapQueueItem}
    (h : item ∈ (Db.enqueueOlder target db).rewrapQueue) :
    item ∈ db.rewrapQueue ∨ ∃ row ∈ db.deks, item = queueItem target row := by
  rcases mem_foldl_insertOrIgnore h with hold | ⟨row, hrow, rfl⟩
  · exact Or.inl hold
  · exact Or.inr ⟨row, List.mem_of_mem_filter hrow, rfl⟩

/-- Every DEK of an older generation is queued. -/
theorem dekId_mem_enqueueOlder {target : ℤ} {row : WrappedDekRecord P} (hrow : row ∈ db.deks)
    (hold : row.vaultKeyGen < target) :
    row.dekId ∈ (Db.enqueueOlder target db).rewrapQueue.map (·.dekId) := by
  have hfilter : row ∈ db.deks.filter (·.vaultKeyGen < target) :=
    List.mem_filter.mpr ⟨hrow, decide_eq_true hold⟩
  have hqueued : ∃ item ∈ (Db.enqueueOlder target db).rewrapQueue, item.dekId = row.dekId :=
    exists_key_foldl_insertOrIgnore (f := queueItem target) hfilter
  obtain ⟨item, hitem, hid⟩ := hqueued
  exact List.mem_map.mpr ⟨item, hitem, hid⟩

/-- Queueing rows that are not under the stored key keeps the table. -/
theorem DekTable.enqueueOlder (h : DekTable minted stored db) (target : ℤ)
    (hstale : ∀ row ∈ db.deks, ∃ key dek, WrappedUnder key row dek ∧ key ≠ stored) :
    DekTable minted stored (Db.enqueueOlder target db) where
  wrapped := h.wrapped
  pending item hitem := by
    rcases mem_enqueueOlder hitem with hold | ⟨row, -, rfl⟩
    · exact h.pending item hold
    · rfl
  stale item hitem := by
    rcases mem_enqueueOlder hitem with hold | ⟨row, hrow, rfl⟩
    · exact h.stale item hold
    · exact ⟨row, hrow, rfl, hstale row hrow⟩
  distinct := h.distinct
  sequence := h.sequence
  ghost := h.ghost
  generation := h.generation

/-- The rows all move behind the previous key when they are queued and the key is replaced. -/
theorem LazyTable.enqueueOlder {target : ℤ} {newKey : P.Key} (hempty : db.rewrapQueue = [])
    (hall : ∀ row ∈ db.deks, ∃ dek, WrappedUnder cur row dek)
    (hold : ∀ row ∈ db.deks, row.vaultKeyGen < target) (hne : cur ≠ newKey) :
    LazyTable newKey (some cur) (Db.enqueueOlder target db) where
  split row hrow := by
    obtain ⟨dek, hdek⟩ := hall row hrow
    exact Or.inr ⟨cur, dek, rfl, hdek, dekId_mem_enqueueOlder hrow (hold row hrow)⟩
  queued item hitem := by
    rcases mem_enqueueOlder hitem with hqueued | ⟨row, hrow, rfl⟩
    · rw [hempty] at hqueued
      cases hqueued
    · exact ⟨cur, rfl, row, hrow, rfl, hall row hrow⟩
  ne p hp := by
    rw [← Option.some.inj hp]
    exact hne

/-- The keys in memory may stay while the stored key changes. -/
theorem LazyTable.congr (h : LazyTable cur prev db) {db' : VaultDb P} (hdeks : db'.deks = db.deks)
    (hqueue : db'.rewrapQueue = db.rewrapQueue) : LazyTable cur prev db' where
  split row hrow := by
    rw [hdeks] at hrow
    rw [hqueue]
    exact h.split row hrow
  queued item hitem := by
    rw [hqueue] at hitem
    rw [hdeks]
    exact h.queued item hitem
  ne := h.ne

/-- The table is the same with other devices. -/
theorem DekTable.withDevices (h : DekTable minted stored db) (devices : List (DeviceRecord P)) :
    DekTable minted stored { db with devices } :=
  ⟨h.wrapped, h.pending, h.stale, h.distinct, h.sequence, h.ghost, h.generation⟩

/-- The KEK derived again from the master key in memory. -/
theorem deriveKek_of_rootKeysFor {db : VaultDb P} (h : RootKeysFor db passphrase root) :
    deriveKek root.masterKey = root.kek := by
  obtain ⟨config, params, -, -, hderive⟩ := h
  exact (deriveRootKeys_kek hderive).symm

/-- The vault row after its stored key has been replaced. -/
def recordWithKey (kek newKey : P.Key) (generation : ℤ) (v : VaultRecord P) : VaultRecord P :=
  { v with
    encryptedVaultKey := some (.exact (wrapKey kek newKey))
    vaultKeyGeneration := some generation }

/-- The vault row after a revocation rotation has replaced its stored key. -/
theorem vaultState_replaceStoredKey {v : VaultRecord P} (hroot : RootKeysFor db passphrase root)
    (hv : db.vaultState = some v) (newKey : P.Key) :
    (VaultKeyStore.replaceStoredKey root.masterKey newKey db).vaultState =
      some (recordWithKey root.kek newKey (generationOf db + 1) v) := by
  rw [VaultKeyStore.replaceStoredKey, hv, deriveKek_of_rootKeysFor hroot]
  rfl

/-- No queued row is under the next drawn key. -/
theorem stale_of_fresh (hlazy : LazyTable cur prev s.world.db)
    (hprev : ∀ p, prev = some p → Fresh s.world.draws p) :
    ∀ item ∈ s.world.db.rewrapQueue, ∃ row ∈ s.world.db.deks, row.dekId = item.dekId ∧
      ∃ key dek, WrappedUnder key row dek ∧ key ≠ P.randomKey s.world.draws := by
  intro item hitem
  obtain ⟨p, hp, row, hrow, hid, dek, hdek⟩ := hlazy.queued item hitem
  exact ⟨row, hrow, hid, p, dek, hdek, (hprev p hp _ le_rfl).symm⟩

/-- A revocation rotation that stops after its first write leaves the keys in memory in use. -/
theorem lazyVault_keyReplaced (ideal : P.Ideal) (h : LazyVaultWith passphrase s root v stored)
    (hinner : s.world.inner = some ⟨root.masterKey, root.vaultKey, some cur, prev⟩)
    (hlazy : LazyTable cur prev s.world.db) (hcur : Fresh s.world.draws cur)
    (hprev : ∀ p, prev = some p → Fresh s.world.draws p) :
    LazyVault passphrase ⟨keyReplaced root.masterKey s.world, s.minted⟩ := by
  have hdraws : s.world.draws ≤ s.world.draws + 1 := Nat.le_succ _
  refine ⟨root, recordWithKey root.kek (P.randomKey s.world.draws) (generationOf s.world.db + 1) v,
    P.randomKey s.world.draws, h.nonempty, h.rootKeys,
    vaultState_replaceStoredKey h.rootKeys h.state _, rfl, fresh_randomKey ideal _,
    h.table.replaceStoredKey h.state _ (stale_of_fresh hlazy hprev),
    Or.inr ⟨cur, prev, hinner, hlazy.congr rfl rfl, hcur.mono hdraws,
      fun p hp => (hprev p hp).mono hdraws⟩⟩

/-- The run after a revocation rotation has gone through. -/
def revoked (root : RootKeys P) (cur : P.Key) (devices : List (DeviceRecord P))
    (s : DekRun P) : DekRun P :=
  { world :=
      { db := { Db.enqueueOlder (generationOf s.world.db + 1)
          (VaultKeyStore.replaceStoredKey root.masterKey (P.randomKey s.world.draws)
            s.world.db) with devices }
        inner := some (.withPreviousKey root.masterKey root.vaultKey
          (P.randomKey s.world.draws) cur)
        draws := s.world.draws + 1
        now := s.world.now }
    minted := s.minted }

/-- A revocation rotation that goes through while every row is under the current key keeps every
DEK readable. -/
theorem lazyVault_revoked (ideal : P.Ideal) (h : LazyVaultWith passphrase s root v stored)
    (hlazy : LazyTable cur prev s.world.db) (hcur : Fresh s.world.draws cur)
    (hall : ∀ row ∈ s.world.db.deks, ∃ dek, OpensUnder cur row dek)
    (devices : List (DeviceRecord P)) :
    LazyVault passphrase (revoked root cur devices s) := by
  have hempty := queue_empty ideal hlazy hall
  have hunder := wrappedUnder_of_queue_empty hlazy hempty
  have hne : cur ≠ P.randomKey s.world.draws := (hcur _ le_rfl).symm
  have hold : ∀ row ∈ s.world.db.deks, row.vaultKeyGen < generationOf s.world.db + 1 := by
    intro row hrow
    have hle := h.table.generation row hrow
    omega
  have hreplaced : DekTable s.minted (P.randomKey s.world.draws)
      (VaultKeyStore.replaceStoredKey root.masterKey (P.randomKey s.world.draws) s.world.db) := by
    apply h.table.replaceStoredKey h.state
    rw [hempty]
    simp
  have htable := hreplaced.enqueueOlder (generationOf s.world.db + 1) fun row hrow => by
    obtain ⟨dek, hdek⟩ := hunder row hrow
    exact ⟨cur, dek, hdek, hne⟩
  have hnew : LazyTable (P.randomKey s.world.draws) (some cur)
      (Db.enqueueOlder (generationOf s.world.db + 1) (VaultKeyStore.replaceStoredKey
        root.masterKey (P.randomKey s.world.draws) s.world.db)) :=
    LazyTable.enqueueOlder hempty hunder hold hne
  refine ⟨root, recordWithKey root.kek (P.randomKey s.world.draws) (generationOf s.world.db + 1) v,
    P.randomKey s.world.draws, h.nonempty, h.rootKeys,
    vaultState_replaceStoredKey h.rootKeys h.state _, rfl, fresh_randomKey ideal _,
    htable.withDevices devices, Or.inr ⟨_, some cur, rfl, hnew.congr rfl rfl,
      fresh_randomKey ideal _, ?_⟩⟩
  intro p hp
  rw [← Option.some.inj hp]
  exact hcur.mono (Nat.le_succ _)

/-- A revocation rotation that goes through while a row is under the previous key loses that
key. -/
theorem not_deksReadable_revoked (ideal : P.Ideal)
    (hlazy : LazyTable cur prev s.world.db)
    (hprev : ∀ p, prev = some p → Fresh s.world.draws p)
    (hall : ¬ ∀ row ∈ s.world.db.deks, ∃ dek, OpensUnder cur row dek)
    (devices : List (DeviceRecord P)) :
    ¬ DeksReadable (revoked root cur devices s) := by
  simp only [not_forall] at hall
  obtain ⟨row, hrow, hno⟩ := hall
  obtain ⟨dek, hcur⟩ | ⟨p, dek, hp, hdek, -⟩ := hlazy.split row hrow
  · exact absurd ⟨dek, (hcur.opensUnder_iff ideal).mpr ⟨rfl, rfl⟩⟩ hno
  · have hfresh : P.randomKey s.world.draws ≠ p := hprev p hp _ le_rfl
    have hne : p ≠ cur := hlazy.ne p hp
    apply not_deksReadable (s := revoked root cur devices s) ideal rfl hrow hdek
    · intro heq
      exact hfresh (Option.some.inj heq)
    · intro heq
      exact hne (Option.some.inj heq).symm

/-- What a revocation rotation does from the invariant. -/
theorem rotateForRevocation_cases (h : LazyVaultWith passphrase s root v stored) :
    s.world.inner = none ∧ DekOp.rotateForRevocation.step passphrase s = s ∨
    ∃ cur prev, s.world.inner = some ⟨root.masterKey, root.vaultKey, some cur, prev⟩ ∧
      LazyTable cur prev s.world.db ∧ Fresh s.world.draws cur ∧
      (∀ p, prev = some p → Fresh s.world.draws p) ∧
      (¬ RevocationReady root.masterKey s.world.db ∧
          DekOp.rotateForRevocation.step passphrase s =
            ⟨keyReplaced root.masterKey s.world, s.minted⟩ ∨
        RevocationReady root.masterKey s.world.db ∧ ∃ devices,
          DekOp.rotateForRevocation.step passphrase s = revoked root cur devices s) := by
  obtain hnone | ⟨cur, prev, hinner, hlazy, hcur, hprev⟩ := h.slot
  · have hrun := run_rotateForRevocation_locked (w := s.world) (by rw [hnone]; rfl)
    apply Or.inl
    rw [DekOp.step, hrun]
    exact ⟨hnone, rfl⟩
  · apply Or.inr
    refine ⟨cur, prev, hinner, hlazy, hcur, hprev, ?_⟩
    by_cases hready : RevocationReady root.masterKey s.world.db
    · obtain ⟨result, devices, hrun⟩ := run_rotateForRevocation hinner rfl hready
      apply Or.inr
      refine ⟨hready, devices, ?_⟩
      rw [DekOp.step, hrun]
      rfl
    · obtain ⟨e, hrun⟩ := run_rotateForRevocation_error hinner rfl hready
      apply Or.inl
      rw [DekOp.step, hrun]
      exact ⟨hready, rfl⟩

/-- A revocation rotation at a good moment keeps every DEK readable. -/
theorem lazyVault_rotateForRevocation (ideal : P.Ideal) (h : LazyVault passphrase s)
    (hguard : DekOp.rotateForRevocation.DropsNothing passphrase s) :
    LazyVault passphrase (DekOp.rotateForRevocation.step passphrase s) := by
  have hinv := h
  obtain ⟨root, v, stored, h⟩ := h
  obtain ⟨-, hstep⟩ | ⟨cur, prev, hinner, hlazy, hcur, hprev, ⟨-, hstep⟩ | ⟨hready, devices, hstep⟩⟩ :=
    rotateForRevocation_cases h
  · rw [hstep]
    exact hinv
  · rw [hstep]
    exact lazyVault_keyReplaced ideal h hinner hlazy hcur hprev
  · have hall := hguard _ hinner hready cur (by rw [hinner]; rfl)
    rw [hstep]
    exact lazyVault_revoked ideal h hlazy hcur hall devices

/-- A revocation rotation at a bad moment makes some DEK unreadable. -/
theorem not_deksReadable_rotateForRevocation (ideal : P.Ideal) (h : LazyVault passphrase s)
    (hguard : ¬ DekOp.rotateForRevocation.DropsNothing passphrase s) :
    ¬ DeksReadable (DekOp.rotateForRevocation.step passphrase s) := by
  obtain ⟨root, v, stored, h⟩ := h
  simp only [DekOp.DropsNothing, not_forall] at hguard
  obtain ⟨keys, hkeys, hready', hdrops⟩ := hguard
  obtain ⟨hnone, -⟩ | ⟨cur, prev, hinner, hlazy, hcur, hprev, hcase⟩ := rotateForRevocation_cases h
  · rw [hnone] at hkeys
    cases hkeys
  · obtain rfl := Option.some.inj (hinner.symm.trans hkeys)
    obtain ⟨hready, -⟩ | ⟨-, devices, hstep⟩ := hcase
    · exact absurd hready' hready
    · rw [hstep]
      apply not_deksReadable_revoked ideal hlazy hprev
      intro hall
      apply hdrops
      intro cur' hcur'
      rw [hinner] at hcur'
      obtain rfl : cur = cur' := Option.some.inj hcur'
      exact hall

/-! ## Batches of the lazy re-wrap -/

/-- The row found by its identifier is the only one that has it. -/
theorem find_dekId (hdistinct : (db.deks.map (·.dekId)).Nodup) {row : WrappedDekRecord P}
    (hrow : row ∈ db.deks) : db.deks.find? (·.dekId = row.dekId) = some row := by
  rcases hfind : db.deks.find? (·.dekId = row.dekId) with _ | found
  · have hnone := List.find?_eq_none.mp hfind row hrow
    simp at hnone
  · have hmem := List.mem_of_find?_eq_some hfind
    have hid : found.dekId = row.dekId := by simpa using List.find?_some hfind
    rw [hfind, List.inj_on_of_nodup_map hdistinct hmem hrow hid]

/-- A batch that was fetched for these items: each comes with the blob of its row. -/
def FetchedFor (deks : List (WrappedDekRecord P)) (items : List RewrapQueueItem)
    (batch : List (RewrapQueueItem × Sized P.Wrapped)) : Prop :=
  batch.map Prod.fst = items ∧
    ∀ pair ∈ batch, ∃ row ∈ deks, row.dekId = pair.1.dekId ∧ row.wrappedDek = pair.2

/-- Fetching the blobs of queued items returns and changes nothing. -/
theorem run_fetchWrapped {w : VaultWorld P} (hdistinct : (w.db.deks.map (·.dekId)).Nodup)
    {items : List RewrapQueueItem}
    (hitems : ∀ item ∈ items, ∃ row ∈ w.db.deks, row.dekId = item.dekId) :
    ∃ batch, (Db.fetchWrapped items).run w = (.ok batch, w) ∧
      FetchedFor w.db.deks items batch := by
  induction items with
  | nil => exact ⟨[], rfl, rfl, fun pair hpair => by cases hpair⟩
  | cons item rest ih =>
    obtain ⟨row, hrow, hid⟩ := hitems item List.mem_cons_self
    obtain ⟨tail, hrun, hfst, htail⟩ := ih fun i hi => hitems i (List.mem_cons_of_mem _ hi)
    have hfind := find_dekId hdistinct hrow
    rw [hid] at hfind
    refine ⟨(item, row.wrappedDek) :: tail, ?_, by rw [List.map_cons, hfst], ?_⟩
    · rw [Db.fetchWrapped, Db.getWrappedDekById, run_selectDb_bind, hfind, Prog.ofOption_some,
        Prog.ret_bind, Prog.run_bind_of_ok hrun]
      rfl
    · intro pair hpair
      rcases List.mem_cons.mp hpair with rfl | hrest
      · exact ⟨row, hrow, hid, rfl⟩
      · exact htail pair hrest

/-- A DEK wrapped again under the current key, and its item taken off the queue. -/
def itemRewrapped (dekId : ℤ) (wrapped : P.Wrapped) (db : VaultDb P) : VaultDb P :=
  let stored := Db.setWrappedDek dekId wrapped (generationOf db) db
  { stored with rewrapQueue := deleteWhere (·.dekId = dekId) stored.rewrapQueue }

/-- A queued item whose blob opens under the previous key is re-wrapped. -/
theorem run_rewrapItem (ideal : P.Ideal) (p cur dek : P.Key) (dekId : ℤ) (w : VaultWorld P) :
    (rewrapItem p cur (generationOf w.db) dekId (.exact (wrapKey p dek))).run w =
      (.ok (), { w with db := itemRewrapped dekId (wrapKey cur dek) w.db }) := by
  rw [rewrapItem, Sized.tryInto_exact, Prog.ofOption_some, Prog.ret_bind,
    ideal.unwrapKey_wrapKey, liftCrypto_ok, Prog.ret_bind]
  rfl

/-- The items that stay on the queue keep their rows. -/
theorem mem_itemRewrapped {dekId : ℤ} {wrapped : P.Wrapped} {row : WrappedDekRecord P}
    (hrow : row ∈ db.deks) (hid : row.dekId ≠ dekId) :
    row ∈ (itemRewrapped dekId wrapped db).deks := by
  refine mem_updateWhere.mpr ⟨row, hrow, ?_⟩
  rw [if_neg (by simpa using hid)]

/-- A row after a re-wrap is an old row of another identifier or the re-wrapped one. -/
theorem of_mem_itemRewrapped {dekId : ℤ} {wrapped : P.Wrapped} {row : WrappedDekRecord P}
    (hrow : row ∈ (itemRewrapped dekId wrapped db).deks) :
    row ∈ db.deks ∧ row.dekId ≠ dekId ∨ ∃ old ∈ db.deks, old.dekId = dekId ∧
      row = { old with wrappedDek := .exact wrapped, vaultKeyGen := generationOf db } := by
  obtain ⟨old, hold, heq⟩ := mem_updateWhere.mp hrow
  by_cases hid : old.dekId = dekId
  · rw [if_pos (by simpa using hid)] at heq
    exact Or.inr ⟨old, hold, hid, heq.symm⟩
  · rw [if_neg (by simpa using hid)] at heq
    rw [← heq]
    exact Or.inl ⟨hold, hid⟩

/-- An item after a re-wrap is an old item of another identifier. -/
theorem mem_queue_itemRewrapped {dekId : ℤ} {wrapped : P.Wrapped} {item : RewrapQueueItem} :
    item ∈ (itemRewrapped dekId wrapped db).rewrapQueue ↔
      item ∈ db.rewrapQueue ∧ item.dekId ≠ dekId := by
  simp [itemRewrapped, Db.setWrappedDek]

/-- Re-wrapping the DEK that a row was minted with keeps the table. -/
theorem DekTable.itemRewrapped (h : DekTable minted stored db) {dekId : ℤ} {dek : P.Key}
    (hminted : minted dekId = some dek) :
    DekTable minted stored (VaultKeyStore.itemRewrapped dekId (wrapKey cur dek) db) where
  wrapped row hrow := by
    rcases of_mem_itemRewrapped hrow with ⟨hold, -⟩ | ⟨old, hold, hid, rfl⟩
    · exact h.wrapped row hold
    · exact ⟨cur, dek, by rw [hid, hminted], rfl⟩
  pending item hitem := h.pending item (mem_queue_itemRewrapped.mp hitem).1
  stale item hitem := by
    obtain ⟨hmem, hne⟩ := mem_queue_itemRewrapped.mp hitem
    obtain ⟨row, hrow, hid, hkey⟩ := h.stale item hmem
    exact ⟨row, mem_itemRewrapped hrow (by rw [hid]; exact hne), hid, hkey⟩
  distinct := by
    have hsame : (VaultKeyStore.itemRewrapped dekId (wrapKey cur dek) db).deks.map (·.dekId) =
        db.deks.map (·.dekId) := map_updateWhere (by intro r; rfl) db.deks
    rw [hsame]
    exact h.distinct
  sequence row hrow := by
    rcases of_mem_itemRewrapped hrow with ⟨hold, -⟩ | ⟨old, hold, hid, rfl⟩
    · exact h.sequence row hold
    · exact h.sequence old hold
  ghost := h.ghost
  generation row hrow := by
    rcases of_mem_itemRewrapped hrow with ⟨hold, -⟩ | ⟨old, hold, hid, rfl⟩
    · exact h.generation row hold
    · exact le_rfl

/-- A re-wrapped row is under the current key, and the other queued rows still wait. -/
theorem LazyTable.itemRewrapped (h : LazyTable cur prev db) (dekId : ℤ) (dek : P.Key) :
    LazyTable cur prev (VaultKeyStore.itemRewrapped dekId (wrapKey cur dek) db) where
  split row hrow := by
    rcases of_mem_itemRewrapped hrow with ⟨hold, hne⟩ | ⟨old, hold, hid, rfl⟩
    · obtain hcur | ⟨p, dek', hp, hdek, hqueued⟩ := h.split row hold
      · exact Or.inl hcur
      · obtain ⟨item, hitem, hid⟩ := List.mem_map.mp hqueued
        refine Or.inr ⟨p, dek', hp, hdek, List.mem_map.mpr ⟨item, ?_, hid⟩⟩
        exact mem_queue_itemRewrapped.mpr ⟨hitem, by rw [hid]; exact hne⟩
    · exact Or.inl ⟨dek, rfl⟩
  queued item hitem := by
    obtain ⟨hmem, hne⟩ := mem_queue_itemRewrapped.mp hitem
    obtain ⟨p, hp, row, hrow, hid, hdek⟩ := h.queued item hmem
    exact ⟨p, hp, row, mem_itemRewrapped hrow (by rw [hid]; exact hne), hid, hdek⟩
  ne := h.ne

/-- The tables a batch leaves behind. -/
def BatchKeeps (minted : ℤ → Option P.Key) (stored cur : P.Key) (prev : Option P.Key)
    (db db' : VaultDb P) : Prop :=
  DekTable minted stored db' ∧ LazyTable cur prev db' ∧ db'.vaultState = db.vaultState ∧
    db'.vaultConfig = db.vaultConfig

/-- A batch over distinct rows under the previous key re-wraps them all. -/
theorem run_rewrapBatch (ideal : P.Ideal) {p : P.Key} {w : VaultWorld P}
    (htable : DekTable minted stored w.db) (hlazy : LazyTable cur prev w.db)
    {batch : List (RewrapQueueItem × Sized P.Wrapped)}
    (hbatch : ∀ pair ∈ batch, ∃ dek, minted pair.1.dekId = some dek ∧
      pair.2 = .exact (wrapKey p dek)) :
    ∃ n db', (rewrapBatch p cur (generationOf w.db) batch).run w = (.ok n, { w with db := db' }) ∧
      BatchKeeps minted stored cur prev w.db db' := by
  induction batch generalizing w with
  | nil => exact ⟨0, w.db, rfl, htable, hlazy, rfl, rfl⟩
  | cons pair rest ih =>
    obtain ⟨item, blob⟩ := pair
    obtain ⟨dek, hminted, hblob⟩ := hbatch (item, blob) List.mem_cons_self
    have hitem := run_rewrapItem ideal p cur dek item.dekId w
    have hattempt := Prog.run_attempt (γ := VaultError)
      (rewrapItem p cur (generationOf w.db) item.dekId blob) w
    rw [show blob = .exact (wrapKey p dek) from hblob, hitem] at hattempt
    obtain ⟨n, db', hrest, hkeeps⟩ := ih (w := { w with
        db := itemRewrapped item.dekId (wrapKey cur dek) w.db })
      (htable.itemRewrapped hminted) (hlazy.itemRewrapped item.dekId dek)
      fun q hq => hbatch q (List.mem_cons_of_mem _ hq)
    refine ⟨1 + n, db', ?_, hkeeps⟩
    rw [rewrapBatch, show blob = .exact (wrapKey p dek) from hblob, Prog.run_bind_of_ok hattempt]
    have htail : (rewrapBatch p cur (generationOf w.db) rest).run
        { w with db := itemRewrapped item.dekId (wrapKey cur dek) w.db } =
          (.ok n, { w with db := db' }) := hrest
    simp only [Prog.pure_eq_ret, Prog.ret_bind]
    rw [Prog.run_bind_of_ok htail]
    rfl

/-- When every item is pending, a batch is empty only for a limit of zero or an empty queue. -/
theorem DekTable.pendingItems_eq_nil (h : DekTable minted stored db) {batchSize : ℤ} :
    Db.pendingItems batchSize db = [] ↔ batchSize = 0 ∨ db.rewrapQueue = [] := by
  have hall : db.rewrapQueue.filter (·.status = .pending) = db.rewrapQueue := by
    apply List.filter_eq_self.mpr
    intro item hitem
    exact decide_eq_true (h.pending item hitem)
  have horder : orderBy (·.dekId) db.rewrapQueue = [] ↔ db.rewrapQueue = [] := by
    rw [← List.length_eq_zero_iff, (orderBy_perm _ _).length_eq, List.length_eq_zero_iff]
  rw [Db.pendingItems, limit_eq_nil_iff, hall, horder]

/-- The items of a batch are on the queue. -/
theorem mem_of_mem_pendingItems {batchSize : ℤ} {item : RewrapQueueItem}
    (h : item ∈ Db.pendingItems batchSize db) : item ∈ db.rewrapQueue := by
  have hmem := mem_of_mem_limit h
  rw [mem_orderBy] at hmem
  exact List.mem_of_mem_filter hmem

/-- The keys in memory of an unlocked vault with this root. -/
def rootKeysWith (root : RootKeys P) (cur : P.Key) (prev : Option P.Key) : UnlockedVaultKeys P :=
  ⟨root.masterKey, root.vaultKey, some cur, prev⟩

/-- A batch that finds no item forgets the previous key. -/
theorem run_processRewrapBatch_empty {w : VaultWorld P} {p : P.Key} {batchSize : ℤ}
    (hinner : w.inner = some (rootKeysWith root cur (some p)))
    (hempty : Db.pendingItems batchSize w.db = []) :
    (processRewrapBatch batchSize).run w =
      (.ok 0, { w with inner := some (rootKeysWith root cur none) }) := by
  have henvelope := run_requireEnvelopeKey w
  rw [hinner] at henvelope
  rw [processRewrapBatch, Prog.run_bind_of_ok henvelope]
  simp [previousEnvelopeKey, hinner, rootKeysWith, Db.getPendingRewrapBatch, hempty,
    Db.fetchWrapped, clearPreviousEnvelopeKey]

/-- A batch that finds items re-wraps them, and forgets the previous key once the queue is
empty. -/
theorem run_processRewrapBatch (ideal : P.Ideal) {w : VaultWorld P} {p : P.Key} {batchSize : ℤ}
    (hinner : w.inner = some (rootKeysWith root cur (some p)))
    (htable : DekTable minted stored w.db) (hlazy : LazyTable cur (some p) w.db)
    (hitems : Db.pendingItems batchSize w.db ≠ []) :
    ∃ n prev' db', (prev' = some p ∨ prev' = none) ∧
      BatchKeeps minted stored cur prev' w.db db' ∧ (processRewrapBatch batchSize).run w =
        (.ok n, { w with
          db := db'
          inner := some (rootKeysWith root cur prev') }) := by
  have hrows : ∀ item ∈ Db.pendingItems batchSize w.db, ∃ row ∈ w.db.deks,
      row.dekId = item.dekId := by
    intro item hitem
    obtain ⟨p, hp, row, hrow, hid, -⟩ := hlazy.queued item (mem_of_mem_pendingItems hitem)
    exact ⟨row, hrow, hid⟩
  obtain ⟨batch, hfetch, hfst, hblobs⟩ := run_fetchWrapped htable.distinct hrows
  have hbatch : ∀ pair ∈ batch, ∃ dek, minted pair.1.dekId = some dek ∧
      pair.2 = .exact (wrapKey p dek) := by
    intro pair hpair
    have hitem : pair.1 ∈ Db.pendingItems batchSize w.db := by
      rw [← hfst]
      exact List.mem_map_of_mem hpair
    obtain ⟨row, hrow, hid, hblob⟩ := hblobs pair hpair
    obtain ⟨p', hp', row', hrow', hid', dek', hdek'⟩ :=
      hlazy.queued pair.1 (mem_of_mem_pendingItems hitem)
    obtain rfl : p = p' := Option.some.inj hp'
    obtain rfl : row' = row :=
      List.inj_on_of_nodup_map htable.distinct hrow' hrow (hid'.trans hid.symm)
    obtain ⟨key, dek, hminted, hdek⟩ := htable.wrapped row' hrow
    have hopen := (hdek'.opensUnder_iff ideal).mpr ⟨rfl, rfl⟩
    obtain ⟨-, rfl⟩ := (hdek.opensUnder_iff ideal).mp hopen
    refine ⟨dek, by rw [← hid, hminted], ?_⟩
    rw [← hblob]
    exact hdek'
  obtain ⟨n, db', hrun, htable', hlazy', hstate, hconfig⟩ :=
    run_rewrapBatch ideal htable hlazy hbatch
  have hnonempty : batch.isEmpty = false := by
    rcases batch with _ | ⟨pair, rest⟩
    · exact absurd hfst.symm hitems
    · rfl
  have hbegin : (processRewrapBatch batchSize).run w = (do
      let status ← Db.getRewrapStatus
      if status.1 = 0 ∨ status.2.1 = 0 then
        clearPreviousEnvelopeKey
        pure n
      else pure n).run { w with db := db' } := by
    have henvelope := run_requireEnvelopeKey w
    rw [hinner] at henvelope
    rw [processRewrapBatch, Prog.run_bind_of_ok henvelope]
    simp only [previousEnvelopeKey, Prog.run_query_bind, hinner, Option.bind_some, rootKeysWith,
      Db.getPendingRewrapBatch, Prog.bind_assoc, run_selectDb_bind]
    rw [Prog.run_bind_of_ok hfetch, if_neg (by rw [hnonempty]; simp),
      run_currentVaultKeyGeneration_bind, Prog.run_bind_of_ok hrun, hinner]
    rfl
  by_cases hqueue : db'.rewrapQueue = []
  · refine ⟨n, none, db', Or.inr rfl, ⟨htable', hlazy'.drop hqueue, hstate, hconfig⟩, ?_⟩
    rw [hbegin]
    simp [Db.getRewrapStatus, hqueue, clearPreviousEnvelopeKey, hinner, rootKeysWith]
  · refine ⟨n, some p, db', Or.inl rfl, ⟨htable', hlazy', hstate, hconfig⟩, ?_⟩
    have hpending : db'.rewrapQueue.filter (·.status = .pending) = db'.rewrapQueue := by
      apply List.filter_eq_self.mpr
      intro item hitem
      exact decide_eq_true (htable'.pending item hitem)
    rw [hbegin]
    simp [Db.getRewrapStatus, hpending, hqueue, hinner]

/-- The run after a batch in an unlocked vault. -/
theorem lazyVault_batch (h : LazyVaultWith passphrase s root v stored)
    (hcur : Fresh s.world.draws cur) (hprev : ∀ p, prev = some p → Fresh s.world.draws p)
    (hkeeps : BatchKeeps s.minted stored cur prev s.world.db db) :
    LazyVault passphrase ⟨{ s.world with
      db := db
      inner := some (rootKeysWith root cur prev) }, s.minted⟩ := by
  obtain ⟨htable, hlazy, hstate, hconfig⟩ := hkeeps
  refine ⟨root, v, stored, h.nonempty, ?_, ?_, h.key, h.freshStored, htable,
    Or.inr ⟨cur, prev, rfl, hlazy, hcur, hprev⟩⟩
  · obtain ⟨config, params, hrow, hrest⟩ := h.rootKeys
    exact ⟨config, params, hconfig.trans hrow, hrest⟩
  · exact hstate.trans h.state

/-- Without a previous key, a batch changes nothing. -/
theorem processRewrapBatch_idle {batchSize : ℤ}
    (hprev : s.world.inner.bind (·.previousEnvelopeVaultKey) = none) :
    (DekOp.processRewrapBatch batchSize).step passphrase s = s := by
  have henvelope := run_requireEnvelopeKey s.world
  rcases hcur : s.world.inner.bind (·.envelopeVaultKey) with _ | cur
  · rw [hcur] at henvelope
    rw [DekOp.step, processRewrapBatch, Prog.run_bind_of_error henvelope]
  · rw [hcur] at henvelope
    rw [DekOp.step, processRewrapBatch, Prog.run_bind_of_ok henvelope]
    simp [previousEnvelopeKey, hprev]

/-- A batch at a good moment keeps every DEK readable. -/
theorem lazyVault_processRewrapBatch (ideal : P.Ideal) (h : LazyVault passphrase s)
    {batchSize : ℤ} (hguard : (DekOp.processRewrapBatch batchSize).DropsNothing passphrase s) :
    LazyVault passphrase ((DekOp.processRewrapBatch batchSize).step passphrase s) := by
  have hinv := h
  obtain ⟨root, v, stored, h⟩ := h
  obtain hnone | ⟨cur, prev, hinner, hlazy, hcur, hprev⟩ := h.slot
  · rw [processRewrapBatch_idle (by rw [hnone]; rfl)]
    exact hinv
  rcases prev with _ | p
  · rw [processRewrapBatch_idle (by rw [hinner]; rfl)]
    exact hinv
  by_cases hitems : Db.pendingItems batchSize s.world.db = []
  · have hempty : s.world.db.rewrapQueue = [] := by
      obtain hzero | hempty := h.table.pendingItems_eq_nil.mp hitems
      · apply List.eq_nil_iff_forall_not_mem.mpr
        intro item hitem
        exact hguard hzero ⟨by rw [hinner]; rfl, item, hitem, h.table.pending item hitem⟩
      · exact hempty
    rw [DekOp.step, run_processRewrapBatch_empty hinner hitems]
    exact lazyVault_batch h hcur (fun p hp => by cases hp) ⟨h.table, hlazy.drop hempty, rfl, rfl⟩
  · obtain ⟨n, prev', db', hprev', hkeeps, hrun⟩ :=
      run_processRewrapBatch ideal hinner h.table hlazy hitems
    rw [DekOp.step, hrun]
    apply lazyVault_batch h hcur _ hkeeps
    intro p' hp'
    obtain rfl | rfl := hprev'
    · exact hprev p' hp'
    · cases hp'

/-- A batch of size zero while rows wait makes them unreadable. -/
theorem not_deksReadable_processRewrapBatch (ideal : P.Ideal) (h : LazyVault passphrase s)
    {batchSize : ℤ} (hguard : ¬ (DekOp.processRewrapBatch batchSize).DropsNothing passphrase s) :
    ¬ DeksReadable ((DekOp.processRewrapBatch batchSize).step passphrase s) := by
  obtain ⟨root, v, stored, h⟩ := h
  simp only [DekOp.DropsNothing, not_forall, not_not] at hguard
  obtain ⟨hzero, hheld, item, hitem, -⟩ := hguard
  obtain hnone | ⟨cur, prev, hinner, hlazy, -, -⟩ := h.slot
  · rw [hnone] at hheld
    cases hheld
  obtain ⟨p, rfl, row, hrow, -, dek, hdek⟩ := hlazy.queued item hitem
  have hne : p ≠ cur := hlazy.ne p rfl
  have hrun := run_processRewrapBatch_empty hinner
    (h.table.pendingItems_eq_nil.mpr (Or.inl hzero))
  rw [DekOp.step, hrun]
  apply not_deksReadable (s := ⟨{ s.world with
    inner := some (rootKeysWith root cur none) }, s.minted⟩) ideal rfl hrow hdek
  · intro heq
    exact hne (Option.some.inj heq).symm
  · intro heq
    cases heq

/-! ## Runs from a new vault -/

/-- A vault that its first unlock has just created. The identity tables are in any state, since
the maintenance after the unlock fills them. -/
def JustCreated (passphrase : String) (s : DekRun P) : Prop :=
  ∃ (w₀ w₁ : VaultWorld P) (result : UnlockResult), w₀.db.vaultConfig = none ∧
    w₀.db.vaultState = none ∧ w₀.db.deks = [] ∧ w₀.db.rewrapQueue = [] ∧
    (unlock passphrase).run w₀ = (.ok result, w₁) ∧ s.world.inner = w₁.inner ∧
    w₁.draws ≤ s.world.draws ∧ (∃ localDeviceIdentity devices vaultMembers users,
      s.world.db = { w₁.db with localDeviceIdentity, devices, vaultMembers, users }) ∧
    s.minted = fun _ => none

/-- A first unlock that returns had a passphrase that derives keys. -/
theorem derives_of_unlock_ok {w w' : VaultWorld P} {result : UnlockResult}
    (hconfig : w.db.vaultConfig = none) (hstate : w.db.vaultState = none)
    (h : (unlock passphrase).run w = (.ok result, w')) :
    passphrase ≠ "" ∧ ∃ root,
      deriveRootKeys P passphrase (targetKdfParams (P.randomSalt w.draws)) = some root := by
  have hpass : passphrase ≠ "" := by
    intro hempty
    rw [unlock, if_pos hempty] at h
    cases h
  refine ⟨hpass, ?_⟩
  rcases hroot : deriveRootKeys P passphrase (targetKdfParams (P.randomSalt w.draws)) with _ | root
  · simp [unlock, hpass, ensureVaultConfig, Db.getVaultConfig, hconfig, ensureLocalVaultParams,
      Db.getVaultParams, hstate, hroot, randomSalt, Db.setVaultConfig, Db.setVaultParams] at h
  · exact ⟨root, rfl⟩

/-- A new vault has no DEKs to lose. -/
theorem lazyVault_of_justCreated (ideal : P.Ideal) (h : JustCreated passphrase s) :
    LazyVault passphrase s := by
  obtain ⟨w₀, w₁, result, hconfig, hstate, hdeks, hqueue, hunlock, hinner, hdraws, htables,
    hminted⟩ := h
  obtain ⟨hpass, root, hroot⟩ := derives_of_unlock_ok hconfig hstate hunlock
  obtain ⟨v, w', hrun, hkey, -, -, hslot, hlater, users, hdb⟩ :=
    run_unlock_fresh hpass hconfig hstate hroot
  rw [hunlock] at hrun
  obtain rfl : w₁ = w' := (Prod.mk.inj hrun).2
  obtain ⟨identity, devices, members, users', hworld⟩ := htables
  rw [hdb] at hworld
  have hfresh : Fresh s.world.draws (P.randomKey (w₀.draws + 2)) :=
    (fresh_randomKey ideal (w₀.draws + 2)).mono (hlater.trans hdraws)
  have hnone : s.world.db.deks = [] := by rw [hworld]; exact hdeks
  have hidle : s.world.db.rewrapQueue = [] := by rw [hworld]; exact hqueue
  have htable : DekTable s.minted (P.randomKey (w₀.draws + 2)) s.world.db := by
    constructor <;> simp [hnone, hidle, hminted]
  have hlazy : LazyTable (P.randomKey (w₀.draws + 2)) none s.world.db := by
    constructor <;> simp [hnone, hidle]
  refine ⟨root, v, _, hpass, ?_, by rw [hworld], hkey, hfresh, htable, Or.inr ⟨_, none, ?_, hlazy,
    hfresh, fun p hp => by cases hp⟩⟩
  · exact ⟨_, _, by rw [hworld], toRootKdfParams_eq_ok.mpr ⟨rfl, targetKdfParams_fits _⟩, hroot⟩
  · rw [hinner, hslot]
    rfl

/-- From a new vault, every DEK is readable in every unlocked state of a run exactly when no
operation drops a key that a row needs. -/
theorem deks_readable_iff (ideal : P.Ideal) {ops : List DekOp} (hs : JustCreated passphrase s) :
    (∀ t ∈ GuardedRuns.states (DekOp.step passphrase) ops s, DeksReadable t) ↔
      GuardedRuns.guarded (DekOp.step passphrase) (DekOp.DropsNothing passphrase) ops s := by
  have hlegal : GuardedRuns.guarded (DekOp.step passphrase) (fun _ _ => True) ops s :=
    GuardedRuns.guarded_of_forall _ (fun _ _ => trivial) ops s
  apply GuardedRuns.good_iff_guarded (DekOp.step passphrase) (fun _ _ => True)
    (DekOp.DropsNothing passphrase) (LazyVault passphrase) DeksReadable _ _ _
    (lazyVault_of_justCreated ideal hs) hlegal
  · intro t ht
    exact deksReadable_of_lazyVault ideal ht
  · intro op t ht _ hguard
    cases op with
    | unlock => exact lazyVault_unlock ideal ht hguard
    | lock => exact lazyVault_lock ht
    | createPackDek inodeId => exact lazyVault_createPackDek ht inodeId
    | getOrCreateDek inodeId => exact lazyVault_getOrCreateDek ht inodeId
    | rotateForRevocation => exact lazyVault_rotateForRevocation ideal ht hguard
    | processRewrapBatch batchSize => exact lazyVault_processRewrapBatch ideal ht hguard
  · intro op t ht _ hguard
    cases op with
    | unlock => exact not_deksReadable_unlock ideal ht hguard
    | lock => exact absurd trivial hguard
    | createPackDek inodeId => exact absurd trivial hguard
    | getOrCreateDek inodeId => exact absurd trivial hguard
    | rotateForRevocation => exact not_deksReadable_rotateForRevocation ideal ht hguard
    | processRewrapBatch batchSize => exact not_deksReadable_processRewrapBatch ideal ht hguard

end Invariant

/-! ## A new vault -/

def newRoot : RootKeys symbolic :=
  let master := SymbolicKey.argon2 "correct horse" (targetKdfParams (symbolic.randomSalt 0))
  ⟨master, .expand master vaultKeyInfo, .expand master kekV2Info⟩

/-- A database without a vault. -/
def emptyWorld : VaultWorld symbolic :=
  { db := { localDeviceIdentity := some { deviceId := "laptop" } }, inner := none, draws := 0 }

/-- A vault after its first unlock, with the device key pair that the maintenance makes. -/
def newVault : DekRun symbolic :=
  { world := ((Identity.ensureDeviceKeypair newRoot.masterKey).run
      ((unlock "correct horse").run emptyWorld).2).2
    minted := fun _ => none }

theorem newVault_justCreated : JustCreated "correct horse" newVault := by
  refine ⟨emptyWorld, ((unlock "correct horse").run emptyWorld).2, _, rfl, rfl, rfl, rfl, rfl, rfl,
    by decide, ⟨newVault.world.db.localDeviceIdentity, [], [], [], rfl⟩, rfl⟩

/-- The first DEK of the new vault, under its first envelope key. -/
def firstDek : WrappedDekRecord symbolic :=
  { dekId := 1
    inodeId := 1
    wrappedDek := .exact (wrapKey (SymbolicKey.random 2) (SymbolicKey.random 5))
    keyVersion := 1
    vaultKeyGen := 1 }

/-- A rotation worked off by its batches before the next lock loses no DEK. -/
theorem deks_readable_newVault : JustCreated "correct horse" newVault ∧
    ∀ t ∈ GuardedRuns.states (DekOp.step "correct horse")
      [.createPackDek 1, .rotateForRevocation, .processRewrapBatch 10, .processRewrapBatch 10,
        .lock, .unlock, .getOrCreateDek 1] newVault, DeksReadable t := by
  refine ⟨newVault_justCreated, ?_⟩
  apply (deks_readable_iff symbolic_ideal newVault_justCreated).mpr
  refine ⟨trivial, ?_, ?_, ?_, trivial, ?_, trivial, trivial⟩
  · intro keys _ _ cur hcur row hrow
    have hkey : some (SymbolicKey.random 2) = some cur := hcur
    rw [List.mem_singleton.mp (show row ∈ [firstDek] from hrow), ← Option.some.inj hkey]
    exact ⟨SymbolicKey.random 5, _, rfl, rfl⟩
  · intro hzero
    cases hzero
  · intro hzero
    cases hzero
  · refine ⟨newRoot, _, _, SymbolicKey.random 6, ⟨_, _, rfl, rfl, rfl⟩, rfl, rfl, rfl, ?_⟩
    intro row hrow
    have hmoved : row ∈ [{ firstDek with
        wrappedDek := .exact (wrapKey (SymbolicKey.random 6) (SymbolicKey.random 5))
        vaultKeyGen := 2 }] := hrow
    rw [List.mem_singleton.mp hmoved]
    exact ⟨SymbolicKey.random 5, _, rfl, rfl⟩

/-- The new vault after a DEK, a rotation, a lock and an unlock. -/
def relocked : DekRun symbolic :=
  DekOp.unlock.step "correct horse" <| DekOp.lock.step "correct horse" <|
    DekOp.rotateForRevocation.step "correct horse" <|
      (DekOp.createPackDek 1).step "correct horse" newVault

/-- A lock and unlock between a rotation and its batches loses the DEKs made before it. -/
theorem dek_lost_after_relock :
    ¬ ∀ (passphrase : String) (ops : List DekOp) (s : DekRun symbolic),
      JustCreated passphrase s →
      ∀ t ∈ GuardedRuns.states (DekOp.step passphrase) ops s, DeksReadable t := by
  intro hall
  have hreadable : DeksReadable relocked := by
    apply hall "correct horse" [.createPackDek 1, .rotateForRevocation, .lock, .unlock] newVault
      newVault_justCreated
    exact .tail _ (.tail _ (.tail _ (.tail _ (.head _))))
  have hslot : relocked.world.inner =
      some (rootKeysWith newRoot (SymbolicKey.random 6) none) := rfl
  have hrow : firstDek ∈ relocked.world.db.deks := List.mem_singleton_self firstDek
  have hwrapped : WrappedUnder (P := symbolic) (SymbolicKey.random 2) firstDek
      (SymbolicKey.random 5) := rfl
  apply not_deksReadable symbolic_ideal hslot hrow hwrapped _ _ hreadable
  · intro heq
    cases heq
  · intro heq
    cases heq

end VaultKeyStore

end OmniDrive
