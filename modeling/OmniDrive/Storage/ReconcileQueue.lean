import OmniDrive.Crypto.Symbolic
import OmniDrive.Storage.RepairTables

/-!
# The reconciliation queue

The repair worker takes one pack after the other out of the reconciliation queue. Each one is
copied to a pack with the storage mode that its policies ask for, or deferred. The queue looks at
the first 256 active packs only.
-/

namespace OmniDrive

open StatementProgram Tables

variable {P : Primitives} {ε : Type}

/-- The pack that a reconciliation builds, as far as it is not a copy of the old one. -/
structure NewPack where
  packId : String
  ecScheme : String
  shardSize : ℤ
  status : PackStatus
  manifestSize : ℤ

/-- The surroundings of the worker: its delays, and what becomes of the reconciliation of a pack.
The identifier of a new pack is a hash that contains the chunk, so no chunk is located there
yet. -/
structure Reconciler (P : Primitives) where
  baseDelayMs : ℤ
  maxDelayMs : ℤ
  base_pos : 0 < baseDelayMs
  max_pos : 0 < maxDelayMs
  outcome : RepairWorld P → PackRecord → Option NewPack
  fresh : ∀ w pack new, outcome w pack = some new →
    ∀ l ∈ w.files.db.packLocations, l.packId ≠ new.packId

namespace RepairWorker

open RepairDb

/-- The copy of a pack in another storage mode. -/
def reconciledPack (pack : PackRecord) (desiredMode : StorageMode) (new : NewPack) : PackRecord :=
  { pack with
    packId := new.packId
    storageMode := desiredMode
    encryptionVersion := 1
    ecScheme := new.ecScheme
    shardSize := new.shardSize
    status := new.status }

/-- Create the copy and let the chunk point at it. -/
def swapPack (pack : PackRecord) (desiredMode : StorageMode) (new : NewPack) :
    RepairProg P ε Unit := do
  onRepairFiles (Db.createPack (reconciledPack pack desiredMode new))
  onRepairFiles (Db.linkChunkToPack pack.chunkId new.packId 0 new.manifestSize)

/-- One pass of the worker over the reconciliation queue. -/
def reconcileRound (env : Reconciler P) : RepairProg P ε Unit := do
  match ← getNextPackRequiringReconciliation with
  | none => pure ()
  | some pack =>
    let desiredMode ← onRepairFiles (Db.getDesiredStorageModeForPack pack.packId)
    match ← Prog.query fun w => env.outcome w pack with
    | some new =>
      swapPack pack desiredMode new
      clearPackRepairBackoff pack.packId
    | none =>
      let _ ← deferPackRepair pack.packId env.baseDelayMs env.maxDelayMs
      pure ()

/-- The tables after a number of passes. -/
def afterRounds (env : Reconciler P) : ℕ → RepairWorld P → RepairWorld P
  | 0, w => w
  | n + 1, w => afterRounds env n ((reconcileRound env : RepairProg P Empty Unit).run w).2

end RepairWorker

open RepairDb RepairWorker

/-- No active pack that is not deferred has the wrong storage mode. -/
def Reconciled (w : RepairWorld P) : Prop :=
  ∀ pack ∈ activePacks w.files.db, needsReconciliation w pack = false

/-- An empty queue means that everything is reconciled, now and after every number of passes, and
enough passes get there. -/
structure QueueComplete (w : RepairWorld P) : Prop where
  empty : nextMismatch w = none → Reconciled w
  empty_later : ∀ env : Reconciler P, ∀ n,
    nextMismatch (afterRounds env n w) = none → Reconciled (afterRounds env n w)
  reached : ∀ env : Reconciler P, ∃ n, Reconciled (afterRounds env n w)

/-- Behind the page of the queue no active pack needs it. -/
def PageCovers (w : RepairWorld P) : Prop :=
  ∀ pack ∈ (activePacks w.files.db).drop 256, needsReconciliation w pack = false

/-- The keys of the tables, and the packs that hold the chunk of their row. -/
structure QueueTables (db : FileDb) : Prop where
  packIds : (db.packs.map (·.packId)).Nodup
  chunkIds : (db.packLocations.map (·.chunkId)).Nodup
  own : ∀ l ∈ db.packLocations, ∀ pack ∈ db.packs, pack.packId = l.packId →
    l.chunkId = pack.chunkId

/-! ## What a pass does to the queue -/

namespace RepairWorker

/-- The tables with the copy of a pack in its place. -/
def swapDb (pack : PackRecord) (desiredMode : StorageMode) (new : NewPack) (db : FileDb) : FileDb :=
  Db.setLocation pack.chunkId new.packId 0 new.manifestSize
    (Db.putPack (reconciledPack pack desiredMode new) db)

theorem run_swapPack (pack : PackRecord) (desiredMode : StorageMode) (new : NewPack)
    (w : RepairWorld P) :
    (swapPack pack desiredMode new : RepairProg P ε Unit).run w =
      (.ok (), { w with files := w.files.withDb (swapDb pack desiredMode new w.files.db) }) := rfl

end RepairWorker

section Swap

variable {db : FileDb} {pack : PackRecord} {desiredMode : StorageMode} {new : NewPack}

theorem mem_packs_swapDb (h : QueueTables db) {q : PackRecord} :
    q ∈ (swapDb pack desiredMode new db).packs ↔
      q = reconciledPack pack desiredMode new ∨ q ∈ db.packs ∧ q.packId ≠ new.packId :=
  mem_upsert h.packIds fun _ _ _ => rfl

theorem mem_locations_swapDb (h : QueueTables db) {l : PackLocation} :
    l ∈ (swapDb pack desiredMode new db).packLocations ↔
      l = ⟨pack.chunkId, new.packId, 0, new.manifestSize⟩ ∨
        l ∈ db.packLocations ∧ l.chunkId ≠ pack.chunkId := by
  apply mem_upsert h.chunkIds
  intro l _ hkey
  rw [show l.chunkId = pack.chunkId from hkey]

/-- The chunk of an active pack, and no other, is located in it. -/
theorem located_iff (h : QueueTables db) (hpack : pack ∈ activePacks db) {l : PackLocation}
    (hl : l ∈ db.packLocations) : l.packId = pack.packId ↔ l.chunkId = pack.chunkId := by
  obtain ⟨hmem, own, hown, hid⟩ := mem_activePacks.mp hpack
  have hchunk := h.own own hown pack hmem hid.symm
  constructor
  · intro hl'
    exact h.own l hl pack hmem hl'.symm
  · intro hl'
    have hsame : l = own := List.inj_on_of_nodup_map h.chunkIds hl hown (hl'.trans hchunk.symm)
    rw [hsame, hid]

/-- A pass that reconciles keeps the keys of the tables. -/
theorem QueueTables.swapDb (h : QueueTables db)
    (hfresh : ∀ l ∈ db.packLocations, l.packId ≠ new.packId) :
    QueueTables (swapDb pack desiredMode new db) where
  packIds := nodup_upsert h.packIds fun _ _ _ => rfl
  chunkIds := nodup_upsert h.chunkIds fun _ _ hkey => hkey
  own := by
    intro l hl q hq hid
    rcases (mem_locations_swapDb h).mp hl with rfl | ⟨hl, hchunk⟩
    · rcases (mem_packs_swapDb h).mp hq with rfl | ⟨-, hne⟩
      · rfl
      · exact absurd hid hne
    · rcases (mem_packs_swapDb h).mp hq with rfl | ⟨hq, -⟩
      · exact absurd hid.symm (hfresh l hl)
      · exact h.own l hl q hq hid

/-- The active packs behind a pass: the copy stands for the pack. -/
theorem mem_activePacks_swapDb (h : QueueTables db) (hpack : pack ∈ activePacks db)
    (hfresh : ∀ l ∈ db.packLocations, l.packId ≠ new.packId) {q : PackRecord} :
    q ∈ activePacks (swapDb pack desiredMode new db) ↔
      q = reconciledPack pack desiredMode new ∨ q ∈ activePacks db ∧ q ≠ pack := by
  rw [mem_activePacks, mem_packs_swapDb h, mem_activePacks]
  constructor
  · rintro ⟨hq, l, hl, hid⟩
    rcases hq with rfl | ⟨hq, hne⟩
    · exact .inl rfl
    · right
      rcases (mem_locations_swapDb h).mp hl with rfl | ⟨hold, hchunk⟩
      · exact absurd hid.symm hne
      · refine ⟨⟨hq, l, hold, hid⟩, ?_⟩
        rintro rfl
        exact hchunk ((located_iff h hpack hold).mp hid)
  · rintro (rfl | ⟨⟨hq, l, hl, hid⟩, hne⟩)
    · exact ⟨.inl rfl, _, (mem_locations_swapDb h).mpr (.inl rfl), rfl⟩
    · refine ⟨.inr ⟨hq, ?_⟩, l, (mem_locations_swapDb h).mpr (.inr ⟨hl, ?_⟩), hid⟩
      · rw [← hid]
        exact hfresh l hl
      · intro hchunk
        have hpackId := (located_iff h hpack hl).mpr hchunk
        have hmem := (mem_activePacks.mp hpack).1
        exact hne (List.inj_on_of_nodup_map h.packIds hq hmem (hid.symm.trans hpackId))

/-- A pack that is not touched by a pass holds the chunks that it held. -/
theorem chunks_swapDb_of_ne (h : QueueTables db) (hpack : pack ∈ activePacks db) {packId : String}
    (hne : packId ≠ pack.packId) (hnew : packId ≠ new.packId) (chunkId : Bytes) :
    (∃ l ∈ (swapDb pack desiredMode new db).packLocations, l.packId = packId ∧ l.chunkId = chunkId) ↔
      ∃ l ∈ db.packLocations, l.packId = packId ∧ l.chunkId = chunkId := by
  constructor
  · rintro ⟨l, hl, hid, hchunk⟩
    rcases (mem_locations_swapDb h).mp hl with rfl | ⟨hl, -⟩
    · exact absurd hid.symm hnew
    · exact ⟨l, hl, hid, hchunk⟩
  · rintro ⟨l, hl, hid, hchunk⟩
    refine ⟨l, (mem_locations_swapDb h).mpr (.inr ⟨hl, ?_⟩), hid, hchunk⟩
    intro heq
    exact hne (hid.symm.trans ((located_iff h hpack hl).mpr heq))

/-- The copy holds the chunk that the pack held. -/
theorem chunks_swapDb_new (h : QueueTables db) (hpack : pack ∈ activePacks db)
    (hfresh : ∀ l ∈ db.packLocations, l.packId ≠ new.packId) (chunkId : Bytes) :
    (∃ l ∈ (swapDb pack desiredMode new db).packLocations,
        l.packId = new.packId ∧ l.chunkId = chunkId) ↔
      ∃ l ∈ db.packLocations, l.packId = pack.packId ∧ l.chunkId = chunkId := by
  obtain ⟨-, own, hown, hid⟩ := mem_activePacks.mp hpack
  have hchunkOwn := (located_iff h hpack hown).mp hid
  constructor
  · rintro ⟨l, hl, hnew, hchunk⟩
    rcases (mem_locations_swapDb h).mp hl with rfl | ⟨hl, -⟩
    · exact ⟨own, hown, hid, hchunkOwn.trans hchunk⟩
    · exact absurd hnew (hfresh l hl)
  · rintro ⟨l, hl, hl', hchunk⟩
    have heq := (located_iff h hpack hl).mp hl'
    exact ⟨_, (mem_locations_swapDb h).mpr (.inl rfl), rfl, heq.symm.trans hchunk⟩

/-- The queue behind a pass that reconciles: the copy is in the place of the pack. -/
theorem activePacks_swapDb_perm (h : QueueTables db) (hpack : pack ∈ activePacks db)
    (hfresh : ∀ l ∈ db.packLocations, l.packId ≠ new.packId) :
    (activePacks (swapDb pack desiredMode new db)).Perm
      (reconciledPack pack desiredMode new :: (activePacks db).erase pack) := by
  have hnodup := List.Nodup.of_map _ (nodup_activePacks h.packIds)
  have hswapped : QueueTables (swapDb pack desiredMode new db) := h.swapDb hfresh
  have hnodup' := List.Nodup.of_map _ (nodup_activePacks hswapped.packIds)
  have hcopy : reconciledPack pack desiredMode new ∉ activePacks db := by
    intro hmem
    obtain ⟨-, l, hl, hid⟩ := mem_activePacks.mp hmem
    exact hfresh l hl hid
  rw [List.perm_ext_iff_of_nodup hnodup']
  · intro q
    rw [mem_activePacks_swapDb h hpack hfresh, List.mem_cons, hnodup.mem_erase_iff, and_comm]
  · exact List.nodup_cons.mpr ⟨fun hmem => hcopy (List.mem_of_mem_erase hmem), hnodup.erase _⟩

end Swap

/-! ## Passes -/

section Passes

variable {w : RepairWorld P} {pack : PackRecord} {new : NewPack}

/-- The tables after a pass that reconciles. -/
def afterSwap (pack : PackRecord) (new : NewPack) (w : RepairWorld P) : RepairWorld P :=
  { w with
    files := w.files.withDb (swapDb pack (desiredModeOf pack.packId w.files.db) new w.files.db)
    repairAttempts := Function.update w.repairAttempts pack.packId 0
    repairNextAttemptAt := Function.update w.repairNextAttemptAt pack.packId none }

/-- The tables after a pass that defers. -/
def afterDeferral (env : Reconciler P) (pack : PackRecord) (w : RepairWorld P) : RepairWorld P :=
  { w with
    repairAttempts := Function.update w.repairAttempts pack.packId
      (w.repairAttempts pack.packId + 1)
    repairNextAttemptAt := Function.update w.repairNextAttemptAt pack.packId
      (some (w.files.now +
        repairDelay env.baseDelayMs env.maxDelayMs (w.repairAttempts pack.packId))) }

/-- What one pass does. -/
theorem run_reconcileRound (env : Reconciler P) (w : RepairWorld P) :
    ((reconcileRound env : RepairProg P ε Unit).run w).2 =
      match nextMismatch w with
      | none => w
      | some pack =>
        match env.outcome w pack with
        | some new => afterSwap pack new w
        | none => afterDeferral env pack w := by
  rw [reconcileRound, Prog.run_bind_of_ok (run_getNextPackRequiringReconciliation w)]
  cases nextMismatch w with
  | none => rfl
  | some pack =>
    have hdesired : (onRepairFiles (Db.getDesiredStorageModeForPack pack.packId) :
        RepairProg P ε StorageMode).run w = (.ok (desiredModeOf pack.packId w.files.db), w) := by
      rw [run_onRepairFiles, run_getDesiredStorageModeForPack]
      rfl
    have houtcome : (Prog.query fun w => env.outcome w pack : RepairProg P ε _).run w =
        (.ok (env.outcome w pack), w) := rfl
    dsimp only
    rw [Prog.run_bind_of_ok hdesired, Prog.run_bind_of_ok houtcome]
    cases env.outcome w pack <;> rfl

/-- A pass that is handed a pack takes one that needs it, out of the page. -/
theorem nextMismatch_some (h : nextMismatch w = some pack) :
    pack ∈ activePacks w.files.db ∧ pack ∈ (activePacks w.files.db).take 256 ∧
      needsReconciliation w pack = true := by
  have hmem := List.mem_of_find?_eq_some h
  exact ⟨List.mem_of_mem_take hmem, hmem, List.find?_some h⟩

/-- The copy has the desired mode. -/
theorem needsReconciliation_copy (h : QueueTables w.files.db) (hpack : pack ∈ activePacks w.files.db)
    (hfresh : ∀ l ∈ w.files.db.packLocations, l.packId ≠ new.packId) :
    needsReconciliation (afterSwap pack new w)
      (reconciledPack pack (desiredModeOf pack.packId w.files.db) new) = false := by
  have hmode : desiredModeOf new.packId (afterSwap pack new w).files.db =
      desiredModeOf pack.packId w.files.db :=
    desiredModeOf_congr rfl rfl rfl (chunks_swapDb_new h hpack hfresh)
  rw [← Bool.not_eq_true, needsReconciliation_iff]
  exact fun hneeds => hneeds.1 hmode.symm

/-- A pack that the pass does not touch needs it as before. -/
theorem needsReconciliation_afterSwap (h : QueueTables w.files.db)
    (hpack : pack ∈ activePacks w.files.db)
    (hfresh : ∀ l ∈ w.files.db.packLocations, l.packId ≠ new.packId) {q : PackRecord}
    (hq : q ∈ activePacks w.files.db) (hne : q ≠ pack) :
    needsReconciliation (afterSwap pack new w) q = needsReconciliation w q := by
  obtain ⟨hmem, l, hl, hid⟩ := mem_activePacks.mp hq
  have hnew : q.packId ≠ new.packId := hid ▸ hfresh l hl
  have hother : q.packId ≠ pack.packId := fun heq =>
    hne (List.inj_on_of_nodup_map h.packIds hmem (mem_activePacks.mp hpack).1 heq)
  have hmode : desiredModeOf q.packId (afterSwap pack new w).files.db =
      desiredModeOf q.packId w.files.db :=
    desiredModeOf_congr rfl rfl rfl (chunks_swapDb_of_ne h hpack hother hnew)
  have hdeferred : isDeferred q.packId (afterSwap pack new w) = isDeferred q.packId w := by
    have hnext : (afterSwap pack new w).repairNextAttemptAt q.packId =
        w.repairNextAttemptAt q.packId := Function.update_of_ne hother _ _
    rw [isDeferred, isDeferred, hnext]
    rfl
  rw [needsReconciliation, needsReconciliation, hmode, hdeferred]

/-- A deferral lies in the future. -/
theorem repairDelay_pos (env : Reconciler P) (attempts : ℤ) :
    0 < repairDelay env.baseDelayMs env.maxDelayMs attempts := by
  have hbase := env.base_pos
  have hmax := env.max_pos
  have hpow : (0 : ℤ) < 2 ^ (min (max attempts 0) 8).toNat := Int.pow_pos (by decide)
  have hmul := Int.mul_pos hbase hpow
  rw [repairDelay, saturatingMul]
  omega

/-- Behind a deferral the pack is deferred, and the others are as before. -/
theorem needsReconciliation_afterDeferral (env : Reconciler P) (q : PackRecord) :
    needsReconciliation (afterDeferral env pack w) q =
      if q.packId = pack.packId then false else needsReconciliation w q := by
  by_cases hid : q.packId = pack.packId
  · have hdelay := repairDelay_pos env (w.repairAttempts pack.packId)
    have hnext : (afterDeferral env pack w).repairNextAttemptAt q.packId = some (w.files.now +
        repairDelay env.baseDelayMs env.maxDelayMs (w.repairAttempts pack.packId)) := by
      rw [hid]
      exact Function.update_self _ _ _
    have hdeferred : isDeferred q.packId (afterDeferral env pack w) = true := by
      rw [isDeferred, hnext]
      have hnow : (afterDeferral env pack w).files.now = w.files.now := rfl
      simp only [hnow, decide_eq_true_eq]
      omega
    rw [if_pos hid, ← Bool.not_eq_true, needsReconciliation_iff, hdeferred]
    exact fun h => Bool.noConfusion h.2
  · have hnext : (afterDeferral env pack w).repairNextAttemptAt q.packId =
        w.repairNextAttemptAt q.packId := Function.update_of_ne hid _ _
    rw [if_neg hid, needsReconciliation, needsReconciliation, isDeferred, isDeferred, hnext]
    rfl

end Passes

/-! ## The page -/

section Page

variable {w : RepairWorld P} {pack : PackRecord} {new : NewPack}

/-- The number of active packs in front of an identifier. -/
def rankOf (packId : String) (db : FileDb) : ℕ := (activePacks db).countP fun q => q.packId < packId

/-- The packs of the page are those with fewer than 256 in front of them. -/
theorem mem_page_iff {db : FileDb} (h : QueueTables db) {q : PackRecord} (hq : q ∈ activePacks db) :
    q ∈ (activePacks db).take 256 ↔ rankOf q.packId db < 256 := by
  have hnodup : ((db.packs.filter fun p => db.packLocations.any (·.packId = p.packId)).map
      (·.packId)).Nodup := h.packIds.sublist (List.filter_sublist.map _)
  have htake := mem_take_orderBy_iff hnodup ((mem_orderBy _ _ _).mp hq) 256
  rw [rankOf, activePacks, (orderBy_perm _ _).countP_eq]
  exact htake

/-- The page covers the queue where every pack that needs it is on the page. -/
theorem pageCovers_iff (h : QueueTables w.files.db) :
    PageCovers w ↔ ∀ q ∈ activePacks w.files.db, needsReconciliation w q = true →
      q ∈ (activePacks w.files.db).take 256 := by
  have hsplit := List.take_append_drop 256 (activePacks w.files.db)
  have hnodup := List.Nodup.of_map _ (nodup_activePacks h.packIds)
  constructor
  · intro hcovers q hq hneeds
    rw [← hsplit, List.mem_append] at hq
    rcases hq with hpage | hlater
    · exact hpage
    · rw [hcovers q hlater] at hneeds
      cases hneeds
  · intro hpage q hlater
    rw [← Bool.not_eq_true]
    intro hneeds
    rw [← hsplit, List.nodup_append] at hnodup
    exact hnodup.2.2 q (hpage q (List.mem_of_mem_drop hlater) hneeds) q hlater rfl

/-- A pack that is further in front has fewer packs in front of it. -/
theorem rankOf_lt_rankOf {db : FileDb} {q : PackRecord} (hq : q ∈ activePacks db)
    {packId : String} (hlt : q.packId < packId) : rankOf q.packId db < rankOf packId db := by
  apply Tables.countP_lt_countP _ hq
  · simp
  · simpa using hlt
  · intro r _ hr
    rw [decide_eq_true_eq] at hr ⊢
    exact hr.trans hlt

/-- The packs in front of an identifier, with one pack set apart. -/
theorem rankOf_eq_add {db : FileDb} (hpack : pack ∈ activePacks db) (packId : String) :
    rankOf packId db = ((activePacks db).erase pack).countP (fun q => q.packId < packId) +
      if pack.packId < packId then 1 else 0 := by
  rw [rankOf, (List.perm_cons_erase hpack).countP_eq, List.countP_cons]
  simp only [decide_eq_true_eq]

/-- The packs in front of an identifier behind a pass that reconciles. -/
theorem rankOf_swapDb {db : FileDb} {desiredMode : StorageMode} (h : QueueTables db)
    (hpack : pack ∈ activePacks db) (hfresh : ∀ l ∈ db.packLocations, l.packId ≠ new.packId)
    (packId : String) :
    rankOf packId (swapDb pack desiredMode new db) =
      ((activePacks db).erase pack).countP (fun q => q.packId < packId) +
        if new.packId < packId then 1 else 0 := by
  rw [rankOf, (activePacks_swapDb_perm h hpack hfresh).countP_eq, List.countP_cons]
  by_cases hlt : new.packId < packId
  · rw [if_pos hlt]
    exact congrArg _ (if_pos (decide_eq_true hlt))
  · rw [if_neg hlt]
    exact congrArg _ (if_neg fun h => hlt (of_decide_eq_true h))

/-- A copy that moves to the front pushes no pack that needs it off the page. -/
theorem pageCovers_afterSwap (h : QueueTables w.files.db)
    (hfresh : ∀ l ∈ w.files.db.packLocations, l.packId ≠ new.packId)
    (hnext : nextMismatch w = some pack) (hcovers : PageCovers w) :
    PageCovers (afterSwap pack new w) := by
  obtain ⟨hpack, hpage, -⟩ := nextMismatch_some hnext
  rw [pageCovers_iff (h.swapDb hfresh)]
  intro q hq hneeds
  rcases (mem_activePacks_swapDb h hpack hfresh).mp hq with rfl | ⟨hold, hne⟩
  · rw [needsReconciliation_copy h hpack hfresh] at hneeds
    cases hneeds
  · rw [needsReconciliation_afterSwap h hpack hfresh hold hne] at hneeds
    have hrank := (mem_page_iff h hold).mp ((pageCovers_iff h).mp hcovers q hold hneeds)
    have hrankPack := (mem_page_iff h hpack).mp hpage
    have hadd := rankOf_eq_add hpack q.packId
    refine (mem_page_iff (h.swapDb hfresh) hq).mpr ?_
    rw [rankOf_swapDb h hpack hfresh]
    rcases lt_trichotomy pack.packId q.packId with hbefore | hsame | hafter
    · rw [if_pos hbefore] at hadd
      split <;> omega
    · have heq := List.inj_on_of_nodup_map h.packIds (mem_activePacks.mp hold).1
        (mem_activePacks.mp hpack).1 hsame.symm
      exact absurd heq hne
    · -- such a pack stood in front of the reconciled one, so one more place is left on the page
      have hlt := rankOf_lt_rankOf hold hafter
      rw [if_neg (lt_asymm hafter)] at hadd
      split <;> omega

/-- The number of packs that wait in the queue, on the page or not. -/
def waiting (w : RepairWorld P) : ℕ := (activePacks w.files.db).countP (needsReconciliation w)

/-- A reconciled pack does not wait any more. -/
theorem waiting_afterSwap (h : QueueTables w.files.db)
    (hfresh : ∀ l ∈ w.files.db.packLocations, l.packId ≠ new.packId)
    (hnext : nextMismatch w = some pack) : waiting (afterSwap pack new w) < waiting w := by
  obtain ⟨hpack, -, hneeds⟩ := nextMismatch_some hnext
  have hnodup := List.Nodup.of_map _ (nodup_activePacks h.packIds)
  have hcopy := needsReconciliation_copy h hpack hfresh
  have hothers : ((activePacks w.files.db).erase pack).countP
      (needsReconciliation (afterSwap pack new w)) =
        ((activePacks w.files.db).erase pack).countP (needsReconciliation w) := by
    apply List.countP_congr
    intro q hq
    obtain ⟨hne, hmem⟩ := (hnodup.mem_erase_iff).mp hq
    rw [needsReconciliation_afterSwap h hpack hfresh hmem hne]
  have hwaiting : waiting (afterSwap pack new w) =
      ((activePacks w.files.db).erase pack).countP (needsReconciliation w) := by
    have hcons : waiting (afterSwap pack new w) = (reconciledPack pack
        (desiredModeOf pack.packId w.files.db) new :: (activePacks w.files.db).erase pack).countP
          (needsReconciliation (afterSwap pack new w)) :=
      (activePacks_swapDb_perm h hpack hfresh).countP_eq _
    rw [hcons, List.countP_cons, hcopy, hothers]
    rfl
  rw [hwaiting, waiting, (List.perm_cons_erase hpack).countP_eq, List.countP_cons, if_pos hneeds]
  exact Nat.lt_succ_self _

/-- Nor does a deferred one. -/
theorem waiting_afterDeferral (env : Reconciler P) (hnext : nextMismatch w = some pack) :
    waiting (afterDeferral env pack w) < waiting w := by
  obtain ⟨hpack, -, hneeds⟩ := nextMismatch_some hnext
  change (activePacks w.files.db).countP (needsReconciliation (afterDeferral env pack w)) < _
  refine Tables.countP_lt_countP ?_ hpack ?_ hneeds
  · intro q _ hq
    rw [needsReconciliation_afterDeferral] at hq
    split at hq
    · cases hq
    · exact hq
  · rw [needsReconciliation_afterDeferral, if_pos rfl]

end Page

/-! ## Runs of the queue -/

section Runs

variable {w : RepairWorld P}

/-- What a pass keeps where the page covers the queue. -/
structure Covered (w : RepairWorld P) : Prop where
  tables : QueueTables w.files.db
  page : PageCovers w

/-- A pass keeps the page covering the queue, and takes a pack off it. -/
theorem covered_round (env : Reconciler P) (h : Covered w) {pack : PackRecord}
    (hnext : nextMismatch w = some pack) :
    Covered (((reconcileRound env : RepairProg P Empty Unit).run w).2) ∧
      waiting (((reconcileRound env : RepairProg P Empty Unit).run w).2) < waiting w := by
  rw [run_reconcileRound, hnext]
  dsimp only
  cases houtcome : env.outcome w pack with
  | some new =>
    have hfresh := env.fresh w pack new houtcome
    exact ⟨⟨h.tables.swapDb hfresh, pageCovers_afterSwap h.tables hfresh hnext h.page⟩,
      waiting_afterSwap h.tables hfresh hnext⟩
  | none =>
    refine ⟨⟨h.tables, ?_⟩, waiting_afterDeferral env hnext⟩
    intro q hq
    rw [needsReconciliation_afterDeferral]
    split
    · rfl
    · exact h.page q hq

theorem round_of_empty (env : Reconciler P) (hnext : nextMismatch w = none) :
    ((reconcileRound env : RepairProg P Empty Unit).run w).2 = w := by
  rw [run_reconcileRound, hnext]

theorem covered_afterRounds (env : Reconciler P) (n : ℕ) (h : Covered w) :
    Covered (afterRounds env n w) := by
  induction n generalizing w with
  | zero => exact h
  | succ n ih =>
    apply ih
    cases hnext : nextMismatch w with
    | none => rwa [round_of_empty env hnext]
    | some pack => exact (covered_round env h hnext).1

/-- An empty page that covers the queue leaves nothing to reconcile. -/
theorem reconciled_of_empty (h : Covered w) (hnext : nextMismatch w = none) : Reconciled w := by
  intro pack hpack
  rw [← Bool.not_eq_true]
  intro hneeds
  have hpage := (pageCovers_iff h.tables).mp h.page pack hpack hneeds
  exact List.find?_eq_none.mp hnext pack hpage hneeds

/-- Enough passes empty the queue. -/
theorem exists_empty (env : Reconciler P) (h : Covered w) :
    ∃ n, nextMismatch (afterRounds env n w) = none := by
  induction hwaiting : waiting w using Nat.strong_induction_on generalizing w with
  | _ count ih =>
    cases hnext : nextMismatch w with
    | none => exact ⟨0, hnext⟩
    | some pack =>
      obtain ⟨hcovered, hless⟩ := covered_round env h hnext
      obtain ⟨n, hempty⟩ := ih _ (hwaiting ▸ hless) hcovered rfl
      refine ⟨n + 1, ?_⟩
      rw [afterRounds]
      exact hempty

/-- The surroundings in which no reconciliation succeeds. -/
def failing : Reconciler P where
  baseDelayMs := 1
  maxDelayMs := 1
  base_pos := by decide
  max_pos := by decide
  outcome _ _ := none
  fresh := by
    intro w pack new h
    cases h

/-- A pack behind the page waits for ever where the packs on the page fail. -/
theorem needs_afterRounds {q : PackRecord} (h : QueueTables w.files.db)
    (hq : q ∈ (activePacks w.files.db).drop 256) (hneeds : needsReconciliation w q = true) (n : ℕ) :
    (afterRounds failing n w).files.db = w.files.db ∧
      needsReconciliation (afterRounds failing n w) q = true := by
  induction n generalizing w with
  | zero => exact ⟨rfl, hneeds⟩
  | succ n ih =>
    rw [afterRounds]
    cases hnext : nextMismatch w with
    | none =>
      rw [round_of_empty failing hnext]
      exact ih h hq hneeds
    | some pack =>
      have hround : ((reconcileRound failing : RepairProg P Empty Unit).run w).2 =
          afterDeferral failing pack w := by
        rw [run_reconcileRound, hnext]
        rfl
      have hother : q.packId ≠ pack.packId := by
        intro hid
        obtain ⟨hpack, hpage, -⟩ := nextMismatch_some hnext
        have hmem := List.mem_of_mem_drop hq
        have heq : q = pack := List.inj_on_of_nodup_map h.packIds (mem_activePacks.mp hmem).1
          (mem_activePacks.mp hpack).1 hid
        have hnodup := List.Nodup.of_map _ (nodup_activePacks h.packIds)
        rw [← List.take_append_drop 256 (activePacks w.files.db), List.nodup_append] at hnodup
        exact hnodup.2.2 pack hpage q hq heq.symm
      rw [hround]
      have hstill : needsReconciliation (afterDeferral failing pack w) q = true := by
        rw [needsReconciliation_afterDeferral, if_neg hother]
        exact hneeds
      exact ih h hq hstill

end Runs

/-- The queue is complete if and only if no active pack behind its page needs it. -/
theorem queue_complete_iff {w : RepairWorld P} (h : QueueTables w.files.db) :
    QueueComplete w ↔ PageCovers w := by
  constructor
  · intro hcomplete q hq
    rw [← Bool.not_eq_true]
    intro hneeds
    obtain ⟨n, hreconciled⟩ := hcomplete.reached failing
    obtain ⟨hdb, hstill⟩ := needs_afterRounds h hq hneeds n
    rw [hreconciled q (hdb ▸ List.mem_of_mem_drop hq)] at hstill
    cases hstill
  · intro hpage
    have hcovered : Covered w := ⟨h, hpage⟩
    constructor
    · exact reconciled_of_empty hcovered
    · intro env n
      exact reconciled_of_empty (covered_afterRounds env n hcovered)
    · intro env
      obtain ⟨n, hempty⟩ := exists_empty env hcovered
      exact ⟨n, reconciled_of_empty (covered_afterRounds env n hcovered) hempty⟩

/-! ## A queue that is longer than its page -/

/-- Identifiers of one letter, in their order. -/
def letter (index : ℕ) : String := String.singleton (Char.ofNat (100 + index))

/-- A pack of the vault; only the one with the number `wrong` has the wrong storage mode. -/
def letterPack (wrong index : ℕ) : PackRecord where
  packId := letter index
  chunkId := [UInt8.ofNat (index / 256), UInt8.ofNat index]
  plaintextHash := none
  storageMode := if index = wrong then .localOnly else .ec21
  encryptionVersion := 1
  ecScheme := ""
  logicalSize := 0
  cipherSize := 0
  shardSize := 0
  nonce := []
  gcmTag := []
  status := .healthy

/-- Packs in the right mode, and a last one in the wrong mode; no file refers to them. -/
def longQueue (wrong : ℕ) : RepairWorld symbolic where
  files :=
    { vault := { db := {}, inner := none, draws := 0 }
      db :=
        { packs := (List.range (wrong + 1)).map (letterPack wrong)
          packLocations := (List.range (wrong + 1)).map fun index =>
            { chunkId := (letterPack wrong index).chunkId
              packId := letter index
              packOffset := 0
              encryptedSize := 0 } } }

/-- A pack that no file refers to has to be spread over all providers. -/
theorem desiredModeOf_longQueue (wrong : ℕ) (packId : String) :
    desiredModeOf packId (longQueue wrong).files.db = .ec21 := by
  have hnone : Db.referencingInodeIds packId (longQueue wrong).files.db = [] := by
    rw [List.eq_nil_iff_forall_not_mem]
    intro inodeId hmem
    obtain ⟨-, -, cr, hcr, -⟩ := mem_referencingInodeIds.mp hmem
    cases hcr
  rw [desiredModeOf, hnone]
  rfl

theorem activePacks_longQueue :
    activePacks (longQueue 256).files.db = (List.range 257).map (letterPack 256) := by
  have hchain : ((List.range 257).map letter).IsChain (· < ·) := by decide +kernel
  have hsorted : ((List.range 257).map (letterPack 256)).Pairwise fun a b => a.packId ≤ b.packId :=
    List.pairwise_map.mpr ((List.pairwise_map.mp hchain.pairwise).imp le_of_lt)
  have hactive : ((longQueue 256).files.db.packs.filter fun p =>
      (longQueue 256).files.db.packLocations.any (·.packId = p.packId)) =
        (List.range 257).map (letterPack 256) := by
    apply List.filter_eq_self.mpr
    intro pack hpack
    obtain ⟨index, hindex, rfl⟩ := List.mem_map.mp hpack
    rw [List.any_eq_true]
    exact ⟨_, List.mem_map.mpr ⟨index, hindex, rfl⟩, decide_eq_true rfl⟩
  rw [activePacks, hactive, orderBy_eq_self hsorted]

/-- With 256 packs in front of it, a pack in the wrong mode is never found. -/
theorem queue_not_complete : ¬ QueueComplete (longQueue 256) := by
  intro hcomplete
  have hempty : nextMismatch (longQueue 256) = none := by
    rw [nextMismatch, activePacks_longQueue, ← List.map_take, List.take_range, List.find?_eq_none]
    intro pack hpack
    obtain ⟨index, hindex, rfl⟩ := List.mem_map.mp hpack
    have hright : (letterPack 256 index).storageMode = .ec21 :=
      if_neg (Nat.ne_of_lt (List.mem_range.mp hindex))
    rw [needsReconciliation_iff, desiredModeOf_longQueue, hright]
    exact fun h => h.1 rfl
  have hlast : letterPack 256 256 ∈ activePacks (longQueue 256).files.db := by
    rw [activePacks_longQueue]
    exact List.mem_map.mpr ⟨256, List.mem_range.mpr (by decide), rfl⟩
  have hneeds : needsReconciliation (longQueue 256) (letterPack 256 256) = true := by
    rw [needsReconciliation_iff, desiredModeOf_longQueue]
    exact ⟨nofun, rfl⟩
  rw [hcomplete.empty hempty _ hlast] at hneeds
  cases hneeds

/-- A single pack is always on the page. -/
theorem queue_complete_single : QueueComplete (longQueue 0) :=
  (queue_complete_iff ⟨by decide +kernel, by decide +kernel, by decide +kernel⟩).mpr (by
    have hnone : (activePacks (longQueue 0).files.db).drop 256 = [] := by decide +kernel
    intro pack hpack
    rw [hnone] at hpack
    cases hpack)

end OmniDrive
