import OmniDrive.Crypto.SymbolicChunks
import OmniDrive.Storage.Erasure
import OmniDrive.Storage.RepairTables
import OmniDrive.Storage.Uploader

/-!
# A batch of repairs

A repair rebuilds the missing shard of a degraded pack from the two others. A batch repairs one
degraded pack after the other and stops as soon as a pack comes up a second time.
-/

namespace OmniDrive

open StatementProgram Tables

variable {P : Primitives}

inductive RepairError where
  | invalidEnv (name : String)
  | invalidShardLayout (packId : String)
  | missingShardRecord (reason : String)
  | shardChecksumMismatch (packId : String) (shardIndex : ℤ)
  | numericOverflow (context : String)
  | provider (provider operation : String)
  | erasureCoding
  deriving DecidableEq, Repr

/-- The providers of the repair worker, and which of its requests go through. -/
structure RepairNetwork where
  configured : String → Bool
  delivers : String → ObjectKey → Bool
  accepts : String → ObjectKey → Bool

namespace RepairWorker

variable (C : ChunkPrimitives P) (net : RepairNetwork)

/-- `usize::try_from` of a column. -/
def repairUsize (value : ℤ) (context : String) : Except RepairError ℕ :=
  if 0 ≤ value then .ok value.toNat else .error (.numericOverflow context)

/-- Write a shard to the spool. -/
def writeShardFile (packId : String) (index : ℕ) (bytes : Bytes) :
    FileProg P RepairError Unit :=
  Prog.exec fun w =>
    { w with
      spool :=
        { w.spool with
          shards := Function.update w.spool.shards packId
            (Function.update (w.spool.shards packId) index (some bytes)) } }

/-- Fetch a shard and check it against its checksum. -/
def downloadShard (shard : PackShardRecord) : FileProg P RepairError Bytes := do
  if net.configured shard.provider = false then .fail (.invalidEnv "repair provider not configured")
  else
    let object ← Prog.query fun w => w.objects shard.provider shard.objectKey
    let delivered := object.filter fun _ => net.delivers shard.provider shard.objectKey
    let bytes ← Prog.ofOption (.provider shard.provider "get_object") delivered
    if C.sha256Hex bytes ≠ shard.checksum then
      .fail (.shardChecksumMismatch shard.packId shard.shardIndex)
    else
      let index ← Prog.ofExcept (repairUsize shard.shardIndex "repair shard index")
      writeShardFile shard.packId index bytes
      pure bytes

/-- Fetch the completed shards into their slots. -/
def downloadCompleted (packId : String) (shardLen : ℕ) :
    List (Option Bytes) → List PackShardRecord → FileProg P RepairError (List (Option Bytes))
  | slots, [] => pure slots
  | slots, shard :: rest => do
    let bytes ← downloadShard C net shard
    if bytes.length ≠ shardLen then .fail (.invalidShardLayout packId)
    else
      let index ← Prog.ofExcept (repairUsize shard.shardIndex "completed shard index")
      downloadCompleted packId shardLen (slots.set index (some bytes)) rest

/-- Store a rebuilt shard at its provider. -/
def uploadShard (shard : PackShardRecord) (index : ℕ) (bytes : Bytes) :
    FileProg P RepairError Unit := do
  writeShardFile shard.packId index bytes
  Prog.exec fun w =>
    { w with
      objects := Function.update w.objects shard.provider
        (Function.update (w.objects shard.provider) shard.objectKey (some bytes)) }

def markUploadJobCompleted (packId : String) : FileProg P RepairError Unit :=
  writeFiles fun db =>
    { db with
      uploadJobs := updateWhere (·.packId = packId) (fun j => { j with status := .completed })
        db.uploadJobs }

/-- Store the rebuilt shard and settle the pack, or queue the shard again. -/
def storeRebuilt (pack : PackRecord) (missing : PackShardRecord) (index : ℕ) (bytes : Bytes) :
    FileProg P RepairError Unit := do
  if net.configured missing.provider = false then
    .fail (.invalidEnv "missing shard provider not configured")
  else
    Db.markPackShardInProgress pack.packId missing.shardIndex
    if net.accepts missing.provider missing.objectKey then
      uploadShard missing index bytes
      Db.markPackShardCompleted pack.packId missing.shardIndex
      Db.updatePackStatus pack.packId .healthy
      markUploadJobCompleted pack.packId
    else
      Db.requeuePackShard pack.packId missing.shardIndex "put_object failed"
      .fail (.provider missing.provider "put_object")

/-- Rebuild the first shard of a pack that is not completed. -/
def rebuildShard (pack : PackRecord) (shards : List PackShardRecord) :
    FileProg P RepairError Unit := do
  let completed := shards.filter (·.status = .completed)
  let missing := shards.find? (·.status ≠ .completed)
  if completed.length < dataShards then Db.updatePackStatus pack.packId .unreadable
  else
    let missing ← Prog.ofOption (.missingShardRecord "no missing shard") missing
    let missingIndex ← Prog.ofExcept (repairUsize missing.shardIndex "missing shard index")
    let shardLen ← Prog.ofExcept (repairUsize pack.shardSize "pack shard size")
    let slots ← downloadCompleted C net pack.packId shardLen (List.replicate totalShards none)
      completed
    let all ← Prog.ofOption .erasureCoding (C.rsReconstruct slots)
    let rebuilt ← Prog.ofOption (.missingShardRecord "reconstructed shard missing")
      all[missingIndex]?
    storeRebuilt net pack missing missingIndex rebuilt

def repairPack (pack : PackRecord) : FileProg P RepairError Unit := do
  if pack.storageMode ≠ .ec21 then pure ()
  else
    let shards ← Db.getPackShards pack.packId
    if shards.length ≠ totalShards then .fail (.invalidShardLayout pack.packId)
    else
      let summary ← Db.summarizePackShards pack.packId
      match Db.resolvePackStatusForMode .ec21 summary with
      | .healthy => pure ()
      | .unreadable => Db.updatePackStatus pack.packId .unreadable
      | .uploading => rebuildShard C net pack shards
      | .degraded => rebuildShard C net pack shards

/-- The report of a batch. -/
structure RepairBatchReport where
  processedPacks : ℕ := 0
  repairedPacks : ℕ := 0
  reconciledPacks : ℕ := 0
  deriving DecidableEq, Repr

/-- A report, with the packs that were given to `repair_pack` in their order. -/
structure BatchLog where
  report : RepairBatchReport := {}
  given : List String := []
  deriving DecidableEq, Repr

/-- Note a repaired pack. -/
def BatchLog.add (packId : String) (log : BatchLog) : BatchLog where
  report :=
    { log.report with
      processedPacks := log.report.processedPacks + 1
      repairedPacks := log.report.repairedPacks + 1 }
  given := log.given ++ [packId]

/-- The loop of a batch with `RepairBatchMode::RepairOnly`; it returns nothing if the fuel does not
last. -/
def repairLoop : ℕ → List String → BatchLog → RepairProg P RepairError (Option BatchLog)
  | 0, _, _ => pure none
  | fuel + 1, visited, log => do
    match ← RepairDb.getNextDegradedPack with
    | none => pure (some log)
    | some pack =>
      if pack.packId ∈ visited then pure (some log)
      else if ← RepairDb.packRequiresHealthy pack.packId then
        onRepairFiles (repairPack C net pack)
        repairLoop fuel (pack.packId :: visited) (log.add pack.packId)
      else repairLoop fuel (pack.packId :: visited) log

/-- One turn for each pack, and one to find that there is no other. -/
def runBatchNow : RepairProg P RepairError (Option BatchLog) := do
  let fuel ← Prog.query fun w => w.files.db.packs.length + 1
  repairLoop C net fuel [] {}

/-! ## What a repair leaves alone -/

section Frame

variable {C net} {κ : Type} {f : FileWorld P → κ} {w w' : FileWorld P} {pack : PackRecord}

theorem fixes_downloadShard (hf : ∀ w packId index bytes,
      f { w with
        spool :=
          { w.spool with
            shards := Function.update w.spool.shards packId
              (Function.update (w.spool.shards packId) index (some bytes)) } } = f w)
    (shard : PackShardRecord) : (downloadShard C net shard).Fixes f := by
  rw [downloadShard]
  split
  · trivial
  · apply (Prog.Fixes.query _).bind
    intro object
    apply (Prog.Fixes.ofOption _ _).bind
    intro bytes
    split
    · trivial
    · apply (Prog.Fixes.ofExcept _).bind
      intro index
      have hwrite : (writeShardFile shard.packId index bytes : FileProg P RepairError Unit).Fixes f :=
        Prog.Fixes.exec fun w => hf w _ _ _
      exact hwrite.bind fun _ => Prog.Fixes.pure _

/-- Fetching shards writes to the spool only. -/
theorem fixes_downloadCompleted (hf : ∀ w packId index bytes,
      f { w with
        spool :=
          { w.spool with
            shards := Function.update w.spool.shards packId
              (Function.update (w.spool.shards packId) index (some bytes)) } } = f w)
    (packId : String) (shardLen : ℕ) (slots : List (Option Bytes))
    (shards : List PackShardRecord) :
    (downloadCompleted C net packId shardLen slots shards).Fixes f := by
  induction shards generalizing slots with
  | nil => exact Prog.Fixes.pure _
  | cons shard rest ih =>
    apply (fixes_downloadShard hf shard).bind
    intro bytes
    split
    · trivial
    · apply (Prog.Fixes.ofExcept _).bind
      intro index
      exact ih _

/-- What no repair of a pack writes: everything that the batch asks about other packs, apart from
the status of the pack itself. -/
structure RepairFrame (packId : String) (f : FileWorld P → κ) : Prop where
  spool : ∀ w spool, f { w with spool } = f w
  objects : ∀ w objects, f { w with objects } = f w
  shards : ∀ w shardIndex g, (∀ s, (g s).packId = s.packId) →
    f { w with db := Db.updateShard packId shardIndex g w.db } = f w
  jobs : ∀ w uploadJobs, f { w with db := { w.db with uploadJobs } } = f w
  status : ∀ w status, f { w with
    db :=
      { w.db with
        packs := updateWhere (·.packId = packId) (fun p => { p with status }) w.db.packs } } = f w

theorem RepairFrame.fixes_storeRebuilt (h : RepairFrame pack.packId f) (missing : PackShardRecord)
    (index : ℕ) (bytes : Bytes) : (storeRebuilt net pack missing index bytes).Fixes f := by
  rw [storeRebuilt]
  split
  · trivial
  · have hshard : ∀ g : PackShardRecord → PackShardRecord, (∀ s, (g s).packId = s.packId) →
        (writeFiles (Db.updateShard pack.packId missing.shardIndex g) : FileProg P RepairError
          Unit).Fixes f := fun g hg => Prog.Fixes.exec fun w => h.shards w _ g hg
    apply (hshard (fun s => { s with status := .inProgress, lastError := none }) fun _ => rfl).bind
    intro _
    split
    · have hupload : (uploadShard missing index bytes : FileProg P RepairError Unit).Fixes f :=
        (Prog.Fixes.exec fun w => h.spool w _).bind fun _ =>
          Prog.Fixes.exec fun w => h.objects w _
      apply hupload.bind
      intro _
      apply (hshard (fun s => { s with status := .completed, lastError := none }) fun _ => rfl).bind
      intro _
      apply (Prog.Fixes.exec fun w => h.status w _).bind
      intro _
      exact Prog.Fixes.exec fun w => h.jobs w _
    · exact (hshard (fun s => { s with
        status := .pending
        attempts := s.attempts + 1
        lastError := some "put_object failed" }) fun _ => rfl).bind fun _ => trivial

theorem RepairFrame.fixes_rebuildShard (h : RepairFrame pack.packId f)
    (shards : List PackShardRecord) : (rebuildShard C net pack shards).Fixes f := by
  rw [rebuildShard]
  split
  · exact Prog.Fixes.exec fun w => h.status w _
  · apply (Prog.Fixes.ofOption _ _).bind
    intro missing
    apply (Prog.Fixes.ofExcept _).bind
    intro missingIndex
    apply (Prog.Fixes.ofExcept _).bind
    intro shardLen
    apply (fixes_downloadCompleted (fun w _ _ _ => h.spool w _) _ _ _ _).bind
    intro slots
    apply (Prog.Fixes.ofOption _ _).bind
    intro all
    apply (Prog.Fixes.ofOption _ _).bind
    intro rebuilt
    exact h.fixes_storeRebuilt missing missingIndex rebuilt

/-- A repair keeps its frame. -/
theorem RepairFrame.fixes_repairPack (h : RepairFrame pack.packId f) :
    (repairPack C net pack).Fixes f := by
  rw [repairPack]
  split
  · exact Prog.Fixes.pure _
  · apply (Prog.Fixes.query _).bind
    intro shards
    split
    · trivial
    · apply (Prog.Fixes.query _).bind
      intro summary
      split
      · exact Prog.Fixes.pure _
      · exact Prog.Fixes.exec fun w => h.status w _
      · exact h.fixes_rebuildShard shards
      · exact h.fixes_rebuildShard shards

end Frame

/-! ## What a repair does to its pack -/

section Effect

variable {C net} {w w' : FileWorld P} {pack : PackRecord}

/-- The rows of `packs` with another status for one of them. -/
def withStatus (packId : String) (status : PackStatus) (packs : List PackRecord) :
    List PackRecord :=
  updateWhere (·.packId = packId) (fun p => { p with status }) packs

theorem packs_storeRebuilt {missing : PackShardRecord} {index : ℕ} {bytes : Bytes}
    (h : (storeRebuilt net pack missing index bytes).run w = (.ok (), w')) :
    w'.db.packs = withStatus pack.packId .healthy w.db.packs := by
  rw [storeRebuilt] at h
  split at h
  · cases h
  · split at h
    · cases h
      rfl
    · cases h

/-- A shard that is rebuilt, or cannot be, takes its pack out of the degraded ones. -/
theorem packs_rebuildShard {shards : List PackShardRecord}
    (h : (rebuildShard C net pack shards).run w = (.ok (), w')) :
    ∃ status, status ≠ .degraded ∧ w'.db.packs = withStatus pack.packId status w.db.packs := by
  rw [rebuildShard] at h
  split at h
  · cases h
    exact ⟨.unreadable, nofun, rfl⟩
  · obtain ⟨missing, -, h⟩ := Prog.run_ofOption_bind_ok h
    obtain ⟨missingIndex, -, h⟩ := Prog.run_ofExcept_bind_ok h
    obtain ⟨shardLen, -, h⟩ := Prog.run_ofExcept_bind_ok h
    obtain ⟨slots, t, hdownload, h⟩ := Prog.run_bind_ok h
    obtain ⟨all, -, h⟩ := Prog.run_ofOption_bind_ok h
    obtain ⟨rebuilt, -, h⟩ := Prog.run_ofOption_bind_ok h
    have hfixes : (downloadCompleted C net pack.packId shardLen (List.replicate totalShards none)
        (shards.filter (·.status = .completed))).Fixes fun w => w.db.packs :=
      fixes_downloadCompleted (fun _ _ _ _ => rfl) _ _ _ _
    have hsame := hfixes.run w
    rw [hdownload] at hsame
    have hpacks := packs_storeRebuilt h
    rw [show t.db.packs = w.db.packs from hsame] at hpacks
    exact ⟨.healthy, nofun, hpacks⟩

/-- Whether a repair of a pack settles its status: it is spread over all providers, and its shards
do not count as healthy. -/
def settles (pack : PackRecord) (db : FileDb) : Bool :=
  pack.storageMode = .ec21 &&
    Db.resolvePackStatusForMode .ec21 (Db.shardSummary pack.packId db) ≠ .healthy

/-- A repair that returns has taken its pack out of the degraded ones, or has not touched it. -/
theorem packs_repairPack (h : (repairPack C net pack).run w = (.ok (), w')) :
    if settles pack w.db then
      ∃ status, status ≠ .degraded ∧ w'.db.packs = withStatus pack.packId status w.db.packs
    else w'.db.packs = w.db.packs := by
  rw [repairPack] at h
  split at h
  · rename_i hmode
    cases h
    rw [settles, decide_eq_false hmode]
    rfl
  · rename_i hmode
    rw [not_not] at hmode
    rw [Db.getPackShards, run_selectFiles_bind] at h
    split at h
    · cases h
    · rw [Db.summarizePackShards, run_selectFiles_bind] at h
      rw [settles, decide_eq_true hmode, Bool.true_and]
      cases hstatus : Db.resolvePackStatusForMode .ec21 (Db.shardSummary pack.packId w.db) with
      | healthy =>
        rw [hstatus] at h
        cases h
        rfl
      | unreadable =>
        rw [hstatus] at h
        cases h
        exact ⟨.unreadable, nofun, rfl⟩
      | uploading =>
        rw [hstatus] at h
        exact packs_rebuildShard h
      | degraded =>
        rw [hstatus] at h
        exact packs_rebuildShard h

end Effect

/-! ## What the batch asks about other packs -/

section Others

variable {C net} {w : RepairWorld P} {files : FileWorld P} {pack q : PackRecord}

/-- The rows that decide whether packs have to be healthy. -/
def policyRows (w : FileWorld P) : ℤ × List PackLocation × List ChunkRefRecord ×
    List FileRevisionRecord × List InodeRecord :=
  (w.now, w.db.packLocations, w.db.chunkRefs, w.db.fileRevisions, w.db.inodes)

theorem repairFrame_policyRows (packId : String) :
    RepairFrame packId (policyRows (P := P)) where
  spool _ _ := rfl
  objects _ _ := rfl
  shards _ _ _ _ := rfl
  jobs _ _ := rfl
  status _ _ := rfl

/-- The shards of a pack. -/
def shardRows (packId : String) (w : FileWorld P) : List PackShardRecord :=
  w.db.packShards.filter (·.packId = packId)

theorem repairFrame_shardRows {packId other : String} (hne : other ≠ packId) :
    RepairFrame packId (shardRows (P := P) other) where
  spool _ _ := rfl
  objects _ _ := rfl
  shards w shardIndex g hg := by
    change (updateWhere (fun s => s.packId = packId && s.shardIndex = shardIndex) g
      w.db.packShards).filter (·.packId = other) = w.db.packShards.filter (·.packId = other)
    rw [filter_updateWhere]
    · apply List.filter_congr
      intro s _
      by_cases hs : s.packId = packId
      · simp [hs, Ne.symm hne]
      · simp [hs]
    · intro s hs
      simp only [Bool.and_eq_true, decide_eq_true_eq] at hs
      simp [hg s, hs.1, Ne.symm hne]
  jobs _ _ := rfl
  status _ _ := rfl

/-- What a batch asks is decided by the rows behind it. -/
theorem requiresHealthy_congr (h : policyRows files = policyRows w.files) (packId : String) :
    RepairDb.requiresHealthy packId (w.withFiles files) = RepairDb.requiresHealthy packId w := by
  have hlocations : files.db.packLocations = w.files.db.packLocations :=
    congrArg (fun rows => rows.2.1) h
  have hrefs : files.db.chunkRefs = w.files.db.chunkRefs := congrArg (fun rows => rows.2.2.1) h
  have hrevisions : files.db.fileRevisions = w.files.db.fileRevisions :=
    congrArg (fun rows => rows.2.2.2.1) h
  have hinodes : files.db.inodes = w.files.db.inodes := congrArg (fun rows => rows.2.2.2.2) h
  have hids : Db.referencingInodeIds packId files.db = Db.referencingInodeIds packId w.files.db := by
    rw [Db.referencingInodeIds, Db.referencingInodeIds, hlocations, hrefs, hrevisions]
  have hloop : ∀ sawPolicy inodeIds,
      RepairDb.anyRequiresHealthy (w.withFiles files) sawPolicy inodeIds =
        RepairDb.anyRequiresHealthy w sawPolicy inodeIds := by
    intro sawPolicy inodeIds
    induction inodeIds generalizing sawPolicy with
    | nil => rfl
    | cons inodeId rest ih =>
      have hpath : RepairDb.hasPath inodeId (w.withFiles files) = RepairDb.hasPath inodeId w := by
        rw [RepairDb.hasPath, RepairDb.hasPath, RepairWorld.withFiles, hinodes]
      rw [RepairDb.anyRequiresHealthy, RepairDb.anyRequiresHealthy, hpath]
      simp only [ih]
      rfl
  rw [RepairDb.requiresHealthy, RepairDb.requiresHealthy, hloop]
  change (if (Db.referencingInodeIds packId files.db).isEmpty then _ else
    RepairDb.anyRequiresHealthy w false (Db.referencingInodeIds packId files.db)) = _
  rw [hids]

theorem settles_congr (h : shardRows q.packId files = shardRows q.packId w.files) :
    settles q files.db = settles q w.files.db := by
  have hsummary : Db.shardSummary q.packId files.db = Db.shardSummary q.packId w.files.db := by
    change files.db.packShards.filter (·.packId = q.packId) =
      w.files.db.packShards.filter (·.packId = q.packId) at h
    rw [Db.shardSummary, Db.shardSummary, h]
  rw [settles, settles, hsummary]

theorem isDeferred_congr (h : policyRows files = policyRows w.files) (packId : String) :
    RepairDb.isDeferred packId (w.withFiles files) = RepairDb.isDeferred packId w := by
  have hnow : files.now = w.files.now := congrArg Prod.fst h
  rw [RepairDb.isDeferred, RepairDb.isDeferred, RepairWorld.withFiles, hnow]

/-- The keys of `packs` survive a change of a status. -/
theorem map_withStatus (packId : String) (status : PackStatus) (packs : List PackRecord) :
    (withStatus packId status packs).map (·.packId) = packs.map (·.packId) :=
  map_updateWhere (f := fun p : PackRecord => { p with status }) (fun _ => rfl) packs

/-- A pack that is settled leaves the due ones. -/
theorem dueDegraded_settled (hnodup : (w.files.db.packs.map (·.packId)).Nodup)
    (hrows : policyRows files = policyRows w.files) {rest : List PackRecord}
    (hdue : RepairDb.dueDegraded w = pack :: rest) {status : PackStatus} (hstatus : status ≠ .degraded)
    (hpacks : files.db.packs = withStatus pack.packId status w.files.db.packs) :
    RepairDb.dueDegraded (w.withFiles files) = rest := by
  have hsorted := pairwise_orderBy (fun p : PackRecord => p.packId)
    (w.files.db.packs.filter fun p => p.status = .degraded && !RepairDb.isDeferred p.packId w)
  have hperm := orderBy_perm (fun p : PackRecord => p.packId)
    (w.files.db.packs.filter fun p => p.status = .degraded && !RepairDb.isDeferred p.packId w)
  have hkeys : ((w.files.db.packs.filter fun p =>
      p.status = .degraded && !RepairDb.isDeferred p.packId w).map (·.packId)).Nodup :=
    hnodup.sublist (List.filter_sublist.map _)
  change RepairDb.dueDegraded w = _ at hdue
  rw [RepairDb.dueDegraded] at hdue
  rw [hdue] at hsorted hperm
  have hselected : files.db.packs.filter (fun p =>
      p.status = .degraded && !RepairDb.isDeferred p.packId (w.withFiles files)) =
        (w.files.db.packs.filter fun p =>
          p.status = .degraded && !RepairDb.isDeferred p.packId w).filter
            (·.packId ≠ pack.packId) := by
    simp only [isDeferred_congr hrows]
    rw [hpacks, withStatus, filter_updateWhere (by simp [hstatus]), List.filter_filter]
    apply List.filter_congr
    intro p _
    simp [Bool.and_comm]
  have hrest : (pack :: rest).filter (·.packId ≠ pack.packId) = rest := by
    have hnodupRest := ((hperm.map (·.packId)).nodup_iff).mpr hkeys
    rw [List.map_cons, List.nodup_cons] at hnodupRest
    rw [List.filter_cons_of_neg (by simp), List.filter_eq_self]
    intro p hp
    simp only [ne_eq, decide_not, Bool.not_eq_true', decide_eq_false_iff_not]
    exact fun heq => hnodupRest.1 (heq ▸ List.mem_map_of_mem hp)
  have hpermRest := hperm.filter (·.packId ≠ pack.packId)
  rw [hrest] at hpermRest
  rw [RepairDb.dueDegraded]
  change orderBy _ (files.db.packs.filter _) = rest
  rw [hselected]
  exact orderBy_eq_of_perm (hkeys.sublist (List.filter_sublist.map _))
    (List.pairwise_cons.mp hsorted).2 hpermRest

theorem dueDegraded_congr (hrows : policyRows files = policyRows w.files)
    (hpacks : files.db.packs = w.files.db.packs) :
    RepairDb.dueDegraded (w.withFiles files) = RepairDb.dueDegraded w := by
  rw [RepairDb.dueDegraded, RepairDb.dueDegraded]
  simp only [isDeferred_congr hrows]
  rw [RepairWorld.withFiles, hpacks]

end Others

/-! ## What a batch gives to `repair_pack` -/

section Given

variable {C net} {w : RepairWorld P} {pack : PackRecord}

/-- The packs that a batch takes, of those that are due: it goes on only behind a pack that has to
be healthy and whose repair settles it. -/
def handed (w : RepairWorld P) : List PackRecord → List String
  | [] => []
  | pack :: rest =>
    if RepairDb.requiresHealthy pack.packId w then
      pack.packId :: if settles pack w.files.db then handed w rest else []
    else []

/-- A repair of another pack does not change what a batch takes. -/
theorem handed_congr {files : FileWorld P} (hrows : policyRows files = policyRows w.files)
    (due : List PackRecord) (hshards : ∀ q ∈ due, shardRows q.packId files = shardRows q.packId w.files) :
    handed (w.withFiles files) due = handed w due := by
  induction due with
  | nil => rfl
  | cons q rest ih =>
    have hq : settles q (w.withFiles files).files.db = settles q w.files.db :=
      settles_congr (hshards q List.mem_cons_self)
    rw [handed, handed, requiresHealthy_congr hrows, hq,
      ih fun q hq => hshards q (List.mem_cons_of_mem _ hq)]

theorem run_getNextDegradedPack (w : RepairWorld P) :
    (RepairDb.getNextDegradedPack : RepairProg P RepairError _).run w =
      (.ok (RepairDb.dueDegraded w).head?, w) := rfl

/-- A pack that comes up again ends the batch. -/
theorem repairLoop_visited (fuel : ℕ) {visited : List String} (log : BatchLog)
    {rest : List PackRecord} (hdue : RepairDb.dueDegraded w = pack :: rest)
    (hvisited : pack.packId ∈ visited) :
    (repairLoop C net (fuel + 1) visited log).run w = (.ok (some log), w) := by
  rw [repairLoop, Prog.run_bind_of_ok (run_getNextDegradedPack w), hdue, List.head?_cons]
  dsimp only
  rw [if_pos hvisited]
  rfl

/-- A turn that repairs a pack. -/
theorem repairLoop_repair (fuel : ℕ) {visited : List String} (log : BatchLog)
    {rest : List PackRecord} (hdue : RepairDb.dueDegraded w = pack :: rest)
    (hvisited : pack.packId ∉ visited)
    (hrequired : RepairDb.requiresHealthy pack.packId w = true) :
    (repairLoop C net (fuel + 1) visited log).run w =
      (onRepairFiles (repairPack C net pack) >>= fun _ =>
        repairLoop C net fuel (pack.packId :: visited) (log.add pack.packId)).run w := by
  have hquery : (RepairDb.packRequiresHealthy pack.packId : RepairProg P RepairError Bool).run w =
      (.ok (RepairDb.requiresHealthy pack.packId w), w) := rfl
  rw [repairLoop, Prog.run_bind_of_ok (run_getNextDegradedPack w), hdue, List.head?_cons]
  dsimp only
  rw [if_neg hvisited, Prog.run_bind_of_ok hquery, hrequired]
  rfl

/-- A turn that leaves a pack as it is. -/
theorem repairLoop_skip (fuel : ℕ) {visited : List String} (log : BatchLog)
    {rest : List PackRecord} (hdue : RepairDb.dueDegraded w = pack :: rest)
    (hvisited : pack.packId ∉ visited)
    (hrequired : RepairDb.requiresHealthy pack.packId w = false) :
    (repairLoop C net (fuel + 1) visited log).run w =
      (repairLoop C net fuel (pack.packId :: visited) log).run w := by
  have hquery : (RepairDb.packRequiresHealthy pack.packId : RepairProg P RepairError Bool).run w =
      (.ok (RepairDb.requiresHealthy pack.packId w), w) := rfl
  rw [repairLoop, Prog.run_bind_of_ok (run_getNextDegradedPack w), hdue, List.head?_cons]
  dsimp only
  rw [if_neg hvisited, Prog.run_bind_of_ok hquery, hrequired]
  rfl

theorem nodup_dueDegraded (h : (w.files.db.packs.map (·.packId)).Nodup) :
    ((RepairDb.dueDegraded w).map (·.packId)).Nodup :=
  (((orderBy_perm _ _).map _).nodup_iff).mpr (h.sublist (List.filter_sublist.map _))

/-- What a repair that returns leaves to the turns behind it. -/
theorem dueDegraded_repaired {rest : List PackRecord} {w₁ : RepairWorld P}
    (hnodup : (w.files.db.packs.map (·.packId)).Nodup)
    (hdue : RepairDb.dueDegraded w = pack :: rest)
    (h : (onRepairFiles (repairPack C net pack)).run w = (.ok (), w₁)) :
    (w₁.files.db.packs.map (·.packId)).Nodup ∧ handed w₁ rest = handed w rest ∧
      RepairDb.dueDegraded w₁ = if settles pack w.files.db then rest else pack :: rest := by
  rw [run_onRepairFiles] at h
  obtain ⟨houtcome, rfl⟩ := Prod.mk.inj h
  have hpacks := packs_repairPack (w := w.files) (Prod.ext houtcome rfl)
  have hfixes : (repairPack C net pack).Fixes (policyRows (P := P)) :=
    (repairFrame_policyRows pack.packId).fixes_repairPack
  have hrows := hfixes.run w.files
  have hothers : ∀ q ∈ rest, shardRows q.packId ((repairPack C net pack).run w.files).2 =
      shardRows q.packId w.files := by
    intro q hq
    have hne : q.packId ≠ pack.packId := by
      have hkeys := nodup_dueDegraded hnodup
      rw [hdue, List.map_cons, List.nodup_cons] at hkeys
      exact fun heq => hkeys.1 (heq ▸ List.mem_map_of_mem hq)
    have hfixes : (repairPack C net pack).Fixes (shardRows (P := P) q.packId) :=
      (repairFrame_shardRows hne).fixes_repairPack
    exact hfixes.run w.files
  refine ⟨?_, handed_congr hrows rest hothers, ?_⟩
  · split at hpacks
    · obtain ⟨status, -, hpacks⟩ := hpacks
      change (((repairPack C net pack).run w.files).2.db.packs.map (·.packId)).Nodup
      rw [hpacks, map_withStatus]
      exact hnodup
    · change (((repairPack C net pack).run w.files).2.db.packs.map (·.packId)).Nodup
      rw [hpacks]
      exact hnodup
  · split at hpacks
    · rename_i hsettles
      obtain ⟨status, hstatus, hpacks⟩ := hpacks
      rw [if_pos hsettles]
      exact dueDegraded_settled hnodup hrows hdue hstatus hpacks
    · rename_i hsettles
      rw [if_neg hsettles, dueDegraded_congr hrows hpacks, hdue]

/-- A batch ends, and it has given the packs that it takes. By induction on the due packs: a turn
either takes the first of them away or is the last turn but one. -/
theorem repairLoop_handed (due : List PackRecord) (w : RepairWorld P) (fuel : ℕ)
    (visited : List String) (log : BatchLog) (hnodup : (w.files.db.packs.map (·.packId)).Nodup)
    (hdue : RepairDb.dueDegraded w = due) (hfuel : due.length + 1 ≤ fuel)
    (hvisited : ∀ p ∈ due, p.packId ∉ visited) :
    ((repairLoop C net fuel visited log).run w).1 ≠ .ok none ∧
      ∀ log' w', (repairLoop C net fuel visited log).run w = (.ok (some log'), w') →
        log'.given = log.given ++ handed w due := by
  induction due generalizing w fuel visited log with
  | nil =>
    obtain ⟨fuel, rfl⟩ := Nat.exists_eq_add_of_le' hfuel
    have hrun : (repairLoop C net (fuel + 1) visited log).run w = (.ok (some log), w) := by
      rw [repairLoop, Prog.run_bind_of_ok (run_getNextDegradedPack w), hdue]
      rfl
    refine ⟨?_, fun log' w' h => ?_⟩
    · change ((repairLoop C net (fuel + 1) visited log).run w).1 ≠ _
      rw [hrun]
      nofun
    · cases hrun.symm.trans h
      exact (List.append_nil _).symm
  | cons pack rest ih =>
    obtain ⟨fuel, rfl⟩ := Nat.exists_eq_add_of_le' (show 1 ≤ fuel by omega)
    have hroom : rest.length + 1 ≤ fuel := by
      rw [List.length_cons] at hfuel
      omega
    obtain ⟨spare, hspare⟩ := Nat.exists_eq_add_of_le' (show 1 ≤ fuel by omega)
    have hnew := hvisited pack List.mem_cons_self
    cases hrequired : RepairDb.requiresHealthy pack.packId w with
    | false =>
      have hrun : (repairLoop C net (fuel + 1) visited log).run w = (.ok (some log), w) := by
        rw [repairLoop_skip fuel log hdue hnew hrequired, hspare,
          repairLoop_visited spare log hdue List.mem_cons_self]
      refine ⟨by rw [hrun]; nofun, fun log' w' h => ?_⟩
      cases hrun.symm.trans h
      rw [handed, hrequired]
      exact (List.append_nil _).symm
    | true =>
      rw [repairLoop_repair fuel log hdue hnew hrequired]
      rcases hrepair : (onRepairFiles (repairPack C net pack)).run w with ⟨outcome, w₁⟩
      cases outcome with
      | error e =>
        rw [Prog.run_bind_of_error hrepair]
        refine ⟨nofun, fun log' w' h => ?_⟩
        have houtcome := congrArg Prod.fst h
        cases houtcome
      | ok u =>
        rw [Prog.run_bind_of_ok hrepair]
        obtain ⟨hnodup₁, hhanded, hdue₁⟩ := dueDegraded_repaired hnodup hdue hrepair
        cases hsettles : settles pack w.files.db with
        | false =>
          rw [hsettles] at hdue₁
          have hrun : (repairLoop C net fuel (pack.packId :: visited) (log.add pack.packId)).run w₁ =
              (.ok (some (log.add pack.packId)), w₁) := by
            rw [hspare, repairLoop_visited spare _ hdue₁ List.mem_cons_self]
          rw [hrun]
          refine ⟨nofun, fun log' w' h => ?_⟩
          cases h
          rw [handed, hrequired, hsettles]
          rfl
        | true =>
          rw [hsettles] at hdue₁
          have hkeys := nodup_dueDegraded hnodup
          rw [hdue, List.map_cons, List.nodup_cons] at hkeys
          have hfresh : ∀ p ∈ rest, p.packId ∉ pack.packId :: visited := by
            intro p hp hmem
            rcases List.mem_cons.mp hmem with heq | hold
            · exact hkeys.1 (heq ▸ List.mem_map_of_mem hp)
            · exact hvisited p (List.mem_cons_of_mem _ hp) hold
          obtain ⟨hends, hgiven⟩ := ih w₁ fuel (pack.packId :: visited) (log.add pack.packId)
            hnodup₁ hdue₁ hroom hfresh
          refine ⟨hends, fun log' w' h => ?_⟩
          rw [hgiven log' w' h, hhanded, handed, hrequired, hsettles, BatchLog.add,
            List.append_assoc]
          rfl

theorem mem_handed {packId : String} {due : List PackRecord} (h : packId ∈ handed w due) :
    packId ∈ due.map (·.packId) := by
  induction due with
  | nil => exact h
  | cons q rest ih =>
    rw [handed] at h
    split at h
    · rw [List.map_cons]
      rcases List.mem_cons.mp h with rfl | h
      · exact List.mem_cons_self
      · split at h
        · exact List.mem_cons_of_mem _ (ih h)
        · cases h
    · cases h

/-- A batch comes to every pack that has to be healthy, if the packs before it leave. By induction
on the due packs; the cases are what becomes of the first. -/
theorem count_handed_iff {due : List PackRecord} (hnodup : (due.map (·.packId)).Nodup) :
    (∀ p ∈ due, RepairDb.requiresHealthy p.packId w = true →
      (handed w due).count p.packId = 1) ↔
    due.Pairwise fun q p => RepairDb.requiresHealthy p.packId w = true →
      RepairDb.requiresHealthy q.packId w = true ∧ settles q w.files.db = true := by
  have hnone : ∀ rest : List PackRecord,
      (∀ p ∈ rest, ¬RepairDb.requiresHealthy p.packId w = true) →
        rest.Pairwise fun q p => RepairDb.requiresHealthy p.packId w = true →
          RepairDb.requiresHealthy q.packId w = true ∧ settles q w.files.db = true :=
    fun rest hrest => List.pairwise_of_forall_mem_list fun q _ p hp h => absurd h (hrest p hp)
  induction due with
  | nil => exact ⟨fun _ => List.Pairwise.nil, fun _ _ hp => nomatch hp⟩
  | cons q rest ih =>
    rw [List.map_cons, List.nodup_cons] at hnodup
    have hother : ∀ p ∈ rest, p.packId ≠ q.packId := fun p hp heq =>
      hnodup.1 (heq ▸ List.mem_map_of_mem hp)
    rw [List.pairwise_cons, handed]
    by_cases hrequired : RepairDb.requiresHealthy q.packId w = true
    · rw [if_pos hrequired]
      by_cases hsettles : settles q w.files.db = true
      · rw [if_pos hsettles, List.forall_mem_cons]
        have hfirst : (q.packId :: handed w rest).count q.packId = 1 := by
          rw [List.count_cons_self, List.count_eq_zero.mpr fun h => hnodup.1 (mem_handed h)]
        constructor
        · intro h
          refine ⟨fun _ _ _ => ⟨hrequired, hsettles⟩, (ih hnodup.2).mp fun p hp hp' => ?_⟩
          have hcount := h.2 p hp hp'
          rwa [List.count_cons_of_ne (hother p hp).symm] at hcount
        · intro h
          refine ⟨fun _ => hfirst, fun p hp hp' => ?_⟩
          rw [List.count_cons_of_ne (hother p hp).symm]
          exact (ih hnodup.2).mpr h.2 p hp hp'
      · rw [if_neg hsettles]
        constructor
        · intro h
          have hrest : ∀ p ∈ rest, ¬RepairDb.requiresHealthy p.packId w = true := by
            intro p hp hp'
            have hcount := h p (List.mem_cons_of_mem _ hp) hp'
            rw [List.count_cons_of_ne (hother p hp).symm] at hcount
            cases hcount
          exact ⟨fun p hp hp' => absurd hp' (hrest p hp), hnone rest hrest⟩
        · rintro ⟨hfirst, -⟩ p hp hp'
          rcases List.mem_cons.mp hp with rfl | hp
          · exact List.count_cons_self
          · exact absurd (hfirst p hp hp').2 hsettles
    · rw [if_neg hrequired]
      constructor
      · intro h
        have hrest : ∀ p ∈ rest, ¬RepairDb.requiresHealthy p.packId w = true := fun p hp hp' =>
          nomatch h p (List.mem_cons_of_mem _ hp) hp'
        exact ⟨fun p hp hp' => absurd hp' (hrest p hp), hnone rest hrest⟩
      · rintro ⟨hfirst, -⟩ p hp hp'
        rcases List.mem_cons.mp hp with rfl | hp
        · exact absurd hp' hrequired
        · exact absurd (hfirst p hp hp').1 hrequired

end Given

/-! ## The packs that a batch reaches -/

section Reach

variable {C net}

/-- Every degraded pack that was not deferred and had to be healthy has been given to `repair_pack`
once. -/
def Reaches (w : RepairWorld P) (log : BatchLog) : Prop :=
  ∀ p ∈ w.files.db.packs, p.status = .degraded → RepairDb.isDeferred p.packId w = false →
    RepairDb.requiresHealthy p.packId w = true → log.given.count p.packId = 1

/-- The due packs before one that has to be healthy have to be healthy themselves, and a repair
settles them. -/
def EarlierLeave (w : RepairWorld P) : Prop :=
  (RepairDb.dueDegraded w).Pairwise fun q p => RepairDb.requiresHealthy p.packId w = true →
    RepairDb.requiresHealthy q.packId w = true ∧ settles q w.files.db = true

theorem mem_dueDegraded {w : RepairWorld P} {p : PackRecord} :
    p ∈ RepairDb.dueDegraded w ↔
      p ∈ w.files.db.packs ∧ p.status = .degraded ∧ RepairDb.isDeferred p.packId w = false := by
  rw [RepairDb.dueDegraded, mem_orderBy, List.mem_filter, Bool.and_eq_true, decide_eq_true_eq,
    Bool.not_eq_true']

end Reach

/-! ## A pack that nobody needs, before one that is needed -/

/-- A degraded pack of two bytes a shard. -/
def degradedPack (packId : String) (chunk : UInt8) : PackRecord where
  packId := packId
  chunkId := [chunk]
  plaintextHash := none
  storageMode := .ec21
  encryptionVersion := 1
  ecScheme := "RS(2,1)"
  logicalSize := 4
  cipherSize := 4
  shardSize := 2
  nonce := []
  gcmTag := []
  status := .degraded

def degradedShard (stored : ℕ) (packId : String) (index : ℕ) : PackShardRecord where
  packId := packId
  shardIndex := index
  shardRole := if index < dataShards then .data else .parity
  provider := "provider"
  objectKey := ⟨packId, index⟩
  size := 2
  checksum := ""
  status := if index < stored then .completed else .pending

/-- Degraded packs with one chunk each and some stored shards; a file refers to the last chunk
only. -/
def degradedPacks (stored : ℕ) (packIds : List String) : RepairWorld symbolic where
  files :=
    { vault := { db := {}, inner := none, draws := 0 }
      db :=
        { inodes := [{ id := 1, parentId := none, name := "notes.txt", kind := "FILE", size := 4 }]
          fileRevisions :=
            [{ revisionId := 1
               inodeId := 1
               createdAt := 0
               size := 4
               isCurrent := true
               immutableUntil := none
               deviceId := none
               parentRevisionId := none
               origin := "LOCAL"
               conflictReason := none }]
          chunkRefs :=
            [{ id := 1
               revisionId := 1
               chunkId := [UInt8.ofNat (packIds.length - 1)]
               fileOffset := 0
               size := 4 }]
          packs := packIds.zipIdx.map fun p => degradedPack p.1 (UInt8.ofNat p.2)
          packShards := packIds.flatMap fun packId =>
            (List.range totalShards).map (degradedShard stored packId)
          packLocations := packIds.zipIdx.map fun p =>
            { chunkId := [UInt8.ofNat p.2], packId := p.1, packOffset := 0, encryptedSize := 4 } } }

/-- All providers take and deliver everything. -/
def everyProvider : RepairNetwork := ⟨fun _ => true, fun _ _ => true, fun _ _ => true⟩

end RepairWorker

end OmniDrive
