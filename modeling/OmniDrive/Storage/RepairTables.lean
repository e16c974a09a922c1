import Mathlib.Data.List.Dedup
import OmniDrive.Storage.Database

/-!
# Repairs and their tables

The queries behind the repair worker: which packs have the wrong storage mode, which are degraded,
which have been deferred after a failure and which have to be healthy.
-/

namespace OmniDrive

open StatementProgram Tables

/-- The storage, the columns of `packs` about repairs, and for each inode the `require_healthy` of
the policy that covers its path. -/
structure RepairWorld (P : Primitives) where
  files : FileWorld P
  repairAttempts : String → ℤ := fun _ => 0
  repairNextAttemptAt : String → Option ℤ := fun _ => none
  requireHealthy : ℤ → Option ℤ := fun _ => none

variable {P : Primitives} {ε α : Type}

abbrev RepairProg (P : Primitives) (ε α : Type) := Prog (RepairWorld P) ε α

/-- The world with another storage. -/
def RepairWorld.withFiles (w : RepairWorld P) (files : FileWorld P) : RepairWorld P :=
  { w with files }

/-- Run a program of the storage code. -/
def onRepairFiles (p : FileProg P ε α) : RepairProg P ε α :=
  p.zoom (·.files) fun files w => { w with files }

theorem run_onRepairFiles (p : FileProg P ε α) (w : RepairWorld P) :
    (onRepairFiles p).run w = ((p.run w.files).1, w.withFiles (p.run w.files).2) :=
  Prog.run_zoom (fun t : RepairWorld P => t.files) (fun files t => { t with files })
    (fun _ _ => rfl) (fun _ _ _ => rfl) (fun _ => rfl) p w

namespace RepairDb

/-! ## Deferred packs -/

/-- Whether the next attempt of a pack lies in the future. -/
def isDeferred (packId : String) (w : RepairWorld P) : Bool :=
  match w.repairNextAttemptAt packId with
  | some nextAttemptAt => nextAttemptAt > w.files.now
  | none => false

def packRepairIsDeferred (packId : String) : RepairProg P ε Bool := Prog.query (isDeferred packId)

/-- `i64::saturating_mul` of numbers that are not negative. -/
def saturatingMul (a b : ℤ) : ℤ := min (a * b) (2 ^ 63 - 1)

/-- The delay doubles with every attempt, up to a bound. -/
def repairDelay (baseDelayMs maxDelayMs attempts : ℤ) : ℤ :=
  min (saturatingMul baseDelayMs (2 ^ (min (max attempts 0) 8).toNat)) maxDelayMs

def deferPackRepair (packId : String) (baseDelayMs maxDelayMs : ℤ) : RepairProg P ε ℤ := do
  let attempts ← Prog.query fun w => w.repairAttempts packId
  Prog.exec fun w =>
    { w with
      repairAttempts := Function.update w.repairAttempts packId (w.repairAttempts packId + 1)
      repairNextAttemptAt := Function.update w.repairNextAttemptAt packId
        (some (w.files.now + repairDelay baseDelayMs maxDelayMs attempts)) }
  pure (attempts + 1)

def clearPackRepairBackoff (packId : String) : RepairProg P ε Unit :=
  Prog.exec fun w =>
    { w with
      repairAttempts := Function.update w.repairAttempts packId 0
      repairNextAttemptAt := Function.update w.repairNextAttemptAt packId none }

/-! ## Packs with the wrong storage mode -/

/-- The packs that hold a chunk, by identifier. -/
def activePacks (db : FileDb) : List PackRecord :=
  orderBy (·.packId) (db.packs.filter fun p => db.packLocations.any (·.packId = p.packId))

def listActivePacks (n : ℤ) : RepairProg P ε (List PackRecord) :=
  Prog.query fun w => limit n (activePacks w.files.db)

/-- The storage mode that the policies ask for. -/
def desiredModeOf (packId : String) (db : FileDb) : StorageMode :=
  let inodeIds := Db.referencingInodeIds packId db
  if inodeIds.isEmpty then .ec21 else Db.desiredMode db .localOnly inodeIds

/-- The first pack with the wrong mode that is not deferred. -/
def firstMismatch : List PackRecord → RepairProg P ε (Option PackRecord)
  | [] => pure none
  | pack :: rest => do
    let desired ← onRepairFiles (Db.getDesiredStorageModeForPack pack.packId)
    if pack.storageMode ≠ desired then
      if ← packRepairIsDeferred pack.packId then firstMismatch rest else pure (some pack)
    else firstMismatch rest

def getNextPackRequiringReconciliation : RepairProg P ε (Option PackRecord) := do
  firstMismatch (← listActivePacks 256)

/-! ## Degraded packs -/

/-- The degraded packs whose time has come, by identifier. -/
def dueDegraded (w : RepairWorld P) : List PackRecord :=
  orderBy (·.packId)
    (w.files.db.packs.filter fun p => p.status = .degraded && !isDeferred p.packId w)

def getNextDegradedPack : RepairProg P ε (Option PackRecord) :=
  Prog.query fun w => (dueDegraded w).head?

/-- Whether an inode has a row, and with it a path. -/
def hasPath (inodeId : ℤ) (w : RepairWorld P) : Bool := w.files.db.inodes.any (·.id = inodeId)

/-- The loop over the inodes of a pack; without a policy a pack has to be healthy. -/
def anyRequiresHealthy (w : RepairWorld P) : Bool → List ℤ → Bool
  | sawPolicy, [] => !sawPolicy
  | sawPolicy, inodeId :: rest =>
    if hasPath inodeId w then
      match w.requireHealthy inodeId with
      | some required => if required ≠ 0 then true else anyRequiresHealthy w true rest
      | none => true
    else anyRequiresHealthy w sawPolicy rest

/-- Whether the policies ask for a healthy pack. -/
def requiresHealthy (packId : String) (w : RepairWorld P) : Bool :=
  let inodeIds := Db.referencingInodeIds packId w.files.db
  if inodeIds.isEmpty then false else anyRequiresHealthy w false inodeIds

def packRequiresHealthy (packId : String) : RepairProg P ε Bool := Prog.query (requiresHealthy packId)

/-! ## What the queries return -/

/-- Whether the reconciliation queue has to hand out a pack. -/
def needsReconciliation (w : RepairWorld P) (pack : PackRecord) : Bool :=
  pack.storageMode ≠ desiredModeOf pack.packId w.files.db && !isDeferred pack.packId w

theorem needsReconciliation_iff {w : RepairWorld P} {pack : PackRecord} :
    needsReconciliation w pack = true ↔
      pack.storageMode ≠ desiredModeOf pack.packId w.files.db ∧ isDeferred pack.packId w = false := by
  rw [needsReconciliation, Bool.and_eq_true, decide_eq_true_eq, Bool.not_eq_true']

/-- The first pack of the page that needs it. -/
def nextMismatch (w : RepairWorld P) : Option PackRecord :=
  ((activePacks w.files.db).take 256).find? (needsReconciliation w)

theorem run_getDesiredStorageModeForPack (packId : String) (w : FileWorld P) :
    (Db.getDesiredStorageModeForPack packId : FileProg P ε StorageMode).run w =
      (.ok (desiredModeOf packId w.db), w) := by
  rw [Db.getDesiredStorageModeForPack, run_selectFiles_bind, desiredModeOf]
  split <;> rfl

theorem run_firstMismatch (packs : List PackRecord) (w : RepairWorld P) :
    (firstMismatch packs : RepairProg P ε _).run w =
      (.ok (packs.find? (needsReconciliation w)), w) := by
  induction packs with
  | nil => rfl
  | cons pack rest ih =>
    have hdesired : (onRepairFiles (Db.getDesiredStorageModeForPack pack.packId) :
        RepairProg P ε StorageMode).run w = (.ok (desiredModeOf pack.packId w.files.db), w) := by
      rw [run_onRepairFiles, run_getDesiredStorageModeForPack]
      rfl
    rw [firstMismatch, Prog.run_bind_of_ok hdesired]
    by_cases hmode : pack.storageMode = desiredModeOf pack.packId w.files.db
    · have hneeds : ¬ needsReconciliation w pack = true := fun h =>
        (needsReconciliation_iff.mp h).1 hmode
      rw [if_neg (fun h => h hmode), List.find?_cons_of_neg hneeds, ih]
    · have hdeferred : (packRepairIsDeferred pack.packId : RepairProg P ε Bool).run w =
          (.ok (isDeferred pack.packId w), w) := rfl
      rw [if_pos hmode, Prog.run_bind_of_ok hdeferred]
      cases hlater : isDeferred pack.packId w with
      | false =>
        have hneeds : needsReconciliation w pack = true :=
          needsReconciliation_iff.mpr ⟨hmode, hlater⟩
        rw [List.find?_cons_of_pos hneeds]
        rfl
      | true =>
        have hneeds : ¬ needsReconciliation w pack = true := by
          rw [needsReconciliation_iff, hlater]
          exact fun h => Bool.noConfusion h.2
        rw [List.find?_cons_of_neg hneeds]
        exact ih

theorem run_getNextPackRequiringReconciliation (w : RepairWorld P) :
    (getNextPackRequiringReconciliation : RepairProg P ε _).run w = (.ok (nextMismatch w), w) := by
  have hlist : (listActivePacks 256 : RepairProg P ε _).run w =
      (.ok ((activePacks w.files.db).take 256), w) := rfl
  rw [getNextPackRequiringReconciliation, Prog.run_bind_of_ok hlist, run_firstMismatch]
  rfl

/-! ## What the desired mode depends on -/

/-- The packs that hold a chunk. -/
theorem mem_activePacks {db : FileDb} {pack : PackRecord} :
    pack ∈ activePacks db ↔ pack ∈ db.packs ∧ ∃ l ∈ db.packLocations, l.packId = pack.packId := by
  rw [activePacks, mem_orderBy, List.mem_filter, List.any_eq_true]
  simp only [decide_eq_true_eq]

/-- Active packs have distinct identifiers. -/
theorem nodup_activePacks {db : FileDb} (h : (db.packs.map (·.packId)).Nodup) :
    ((activePacks db).map (·.packId)).Nodup :=
  (((orderBy_perm _ _).map _).nodup_iff).mpr (h.sublist (List.filter_sublist.map _))

theorem mem_referencingInodeIds {db : FileDb} {packId : String} {inodeId : ℤ} :
    inodeId ∈ Db.referencingInodeIds packId db ↔
      ∃ chunkId, (∃ l ∈ db.packLocations, l.packId = packId ∧ l.chunkId = chunkId) ∧
        ∃ cr ∈ db.chunkRefs, cr.chunkId = chunkId ∧
          ∃ fr ∈ db.fileRevisions, fr.revisionId = cr.revisionId ∧ fr.inodeId = inodeId := by
  simp only [Db.referencingInodeIds, mem_orderBy, List.mem_dedup, List.mem_flatMap, List.mem_filter,
    List.mem_map, decide_eq_true_eq]
  constructor
  · rintro ⟨l, ⟨hl, hpack⟩, cr, ⟨hcr, hchunk⟩, fr, ⟨hfr, hrev⟩, hinode⟩
    exact ⟨l.chunkId, ⟨l, hl, hpack, rfl⟩, cr, hcr, hchunk, fr, hfr, hrev, hinode⟩
  · rintro ⟨_, ⟨l, hl, hpack, rfl⟩, cr, hcr, hchunk, fr, hfr, hrev, hinode⟩
    exact ⟨l, ⟨hl, hpack⟩, cr, ⟨hcr, hchunk⟩, fr, ⟨hfr, hrev⟩, hinode⟩

/-- The inodes behind a pack depend on the chunks that it holds. -/
theorem referencingInodeIds_congr {db db' : FileDb} {packId packId' : String}
    (hrefs : db'.chunkRefs = db.chunkRefs) (hrevisions : db'.fileRevisions = db.fileRevisions)
    (hchunks : ∀ chunkId, (∃ l ∈ db'.packLocations, l.packId = packId' ∧ l.chunkId = chunkId) ↔
      ∃ l ∈ db.packLocations, l.packId = packId ∧ l.chunkId = chunkId) :
    Db.referencingInodeIds packId' db' = Db.referencingInodeIds packId db := by
  have hmem : ∀ inodeId, inodeId ∈ Db.referencingInodeIds packId' db' ↔
      inodeId ∈ Db.referencingInodeIds packId db := by
    intro inodeId
    rw [mem_referencingInodeIds, mem_referencingInodeIds, hrefs, hrevisions]
    simp only [hchunks]
  have hnodup : ∀ packId db, (Db.referencingInodeIds packId db).Nodup := fun packId db =>
    ((orderBy_perm _ _).nodup_iff).mpr (List.nodup_dedup _)
  have hperm := (List.perm_ext_iff_of_nodup (hnodup packId' db') (hnodup packId db)).mpr hmem
  exact hperm.eq_of_pairwise (fun _ _ _ _ hab hba => le_antisymm hab hba)
    (pairwise_orderBy id _) (pairwise_orderBy id _)

theorem desiredMode_congr {db db' : FileDb} (h : db'.policyTypes = db.policyTypes)
    (desired : StorageMode) (inodeIds : List ℤ) :
    Db.desiredMode db' desired inodeIds = Db.desiredMode db desired inodeIds := by
  induction inodeIds generalizing desired with
  | nil => rfl
  | cons inodeId rest ih =>
    rw [Db.desiredMode, Db.desiredMode, Db.storageModeOf, Db.storageModeOf, h]
    cases StorageMode.fromPolicyType ((db.policyTypes inodeId).getD "PARANOIA") with
    | ec21 => rfl
    | singleReplica => exact ih _
    | localOnly => exact ih _

/-- So does the storage mode that the policies ask for. -/
theorem desiredModeOf_congr {db db' : FileDb} {packId packId' : String}
    (hrefs : db'.chunkRefs = db.chunkRefs) (hrevisions : db'.fileRevisions = db.fileRevisions)
    (hpolicies : db'.policyTypes = db.policyTypes)
    (hchunks : ∀ chunkId, (∃ l ∈ db'.packLocations, l.packId = packId' ∧ l.chunkId = chunkId) ↔
      ∃ l ∈ db.packLocations, l.packId = packId ∧ l.chunkId = chunkId) :
    desiredModeOf packId' db' = desiredModeOf packId db := by
  rw [desiredModeOf, desiredModeOf, referencingInodeIds_congr hrefs hrevisions hchunks,
    desiredMode_congr hpolicies]

end RepairDb

end OmniDrive
