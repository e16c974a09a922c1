import OmniDrive.Crypto.SymbolicChunks
import OmniDrive.Library.TwoWorlds
import OmniDrive.Storage.IngestJobs
import OmniDrive.Storage.LegacyPacks
import OmniDrive.Storage.Policies
import OmniDrive.Storage.RoundTrip

/-!
# Cleaning up a failed ingest job

`cleanup_failed_ingest` looks for the file of a failed job by its bare name and removes the spool
files of all packs of all its revisions. It is compared with what a cleanup may remove: no file of
a pack that is read from the spool, that is still to be uploaded, or that another revision needs.
-/

namespace OmniDrive

open StatementProgram Tables ByteFields Uploader Downloader

/-- The storage code with the table of ingest jobs. -/
structure IngestWorld (P : Primitives) where
  files : FileWorld P
  jobs : IngestJobs := {}

variable {P : Primitives} {ε α : Type}

abbrev IngestProg (P : Primitives) (α : Type) := Prog (IngestWorld P) IngestError α

/-- Run a program of the storage code. -/
def onIngestFiles (p : FileProg P IngestError α) : IngestProg P α :=
  p.zoom (·.files) fun files w => { w with files }

theorem run_onIngestFiles (p : FileProg P IngestError α) (w : IngestWorld P) :
    (onIngestFiles p).run w = ((p.run w.files).1, { w with files := (p.run w.files).2 }) :=
  Prog.run_zoom (fun t : IngestWorld P => t.files) (fun files t => { t with files })
    (fun _ _ => rfl) (fun _ _ _ => rfl) (fun _ => rfl) p w

namespace Db

/-- The file with a name, in whatever directory. -/
def fileNamed (fileName : String) (db : FileDb) : Option ℤ :=
  (db.inodes.find? fun i => i.name = fileName && i.kind = "FILE").map (·.id)

/-- The packs of all revisions of an inode. -/
def packIdsForInode (inodeId : ℤ) (db : FileDb) : List String :=
  ((db.fileRevisions.filter (·.inodeId = inodeId)).flatMap fun fr =>
    (db.chunkRefs.filter (·.revisionId = fr.revisionId)).flatMap fun cr =>
      (db.packLocations.filter (·.chunkId = cr.chunkId)).map (·.packId)).dedup

theorem mem_packIdsForInode {packId : String} {inodeId : ℤ} {db : FileDb} :
    packId ∈ packIdsForInode inodeId db ↔ ∃ r, RefersTo packId db r ∧ r.inodeId = inodeId := by
  simp only [packIdsForInode, List.mem_dedup, List.mem_flatMap, List.mem_filter, List.mem_map,
    decide_eq_true_eq, RefersTo]
  constructor
  · rintro ⟨r, ⟨hr, hinode⟩, cr, ⟨hcr, hrev⟩, pl, ⟨hpl, hchunk⟩, hpack⟩
    exact ⟨r, ⟨hr, pl, hpl, hpack, cr, hcr, hchunk.symm, hrev⟩, hinode⟩
  · rintro ⟨r, ⟨hr, pl, hpl, hpack, cr, hcr, hchunk, hrev⟩, hinode⟩
    exact ⟨r, ⟨hr, hinode⟩, cr, ⟨hcr, hrev⟩, pl, ⟨hpl, hchunk.symm⟩, hpack⟩

end Db

namespace Ingest

/-- What follows the last slash. -/
def fileName (filePath : String) : String :=
  String.ofList ((slashed filePath).toList.reverse.takeWhile (· ≠ '/')).reverse

/-- Remove the manifest and the shards of each pack, as the uploader does for a stored pack. -/
def removeSpoolFiles : List String → FileProg P ε Unit
  | [] => pure ()
  | packId :: rest => do
    cleanupRemoteBackedPackSpool packId
    removeSpoolFiles rest

def cleanupFailedIngest (jobId : ℤ) : IngestProg P Bool := do
  match ← Prog.query fun w => w.jobs.getIngestJob jobId with
  | none => pure false
  | some row =>
    if row.state ≠ .failed then .fail (.io s!"job {jobId} is {row.state.asStr}, not FAILED")
    else
      match ← onIngestFiles (selectFiles (Db.fileNamed (fileName row.filePath))) with
      | none => pure ()
      | some inodeId =>
        let packIds ← onIngestFiles (selectFiles (Db.packIdsForInode inodeId))
        onIngestFiles (removeSpoolFiles packIds)
      Prog.exec fun w => { w with jobs := w.jobs.deleteFailedIngestJob jobId }
      pure true

/-! ## What a cleanup does to the spool -/

/-- The files that a cleanup of a pack removes. -/
structure Absent (packId : String) (spool : SpoolDir) : Prop where
  manifest : spool.manifests packId = none
  shards : ∀ i < totalShards, spool.shards packId i = none

/-- Two spools with the same files of a pack. -/
structure SameFiles (packId : String) (old new : SpoolDir) : Prop where
  manifest : new.manifests packId = old.manifests packId
  shards : ∀ i, new.shards packId i = old.shards packId i

/-- The spool without the files of some packs. -/
def without (packIds : List String) (spool : SpoolDir) : SpoolDir where
  manifests packId := if packId ∈ packIds then none else spool.manifests packId
  shards packId i := if packId ∈ packIds ∧ i < totalShards then none else spool.shards packId i

theorem manifests_without (packIds : List String) (spool : SpoolDir) (packId : String) :
    (without packIds spool).manifests packId =
      if packId ∈ packIds then none else spool.manifests packId := rfl

theorem shards_without (packIds : List String) (spool : SpoolDir) (packId : String) (i : ℕ) :
    (without packIds spool).shards packId i =
      if packId ∈ packIds ∧ i < totalShards then none else spool.shards packId i := rfl

theorem run_removeSpoolFiles (packIds : List String) (w : FileWorld P) :
    (removeSpoolFiles packIds : FileProg P ε Unit).run w =
      (.ok (), { w with spool := without packIds w.spool }) := by
  induction packIds generalizing w with
  | nil => simp [removeSpoolFiles, without]
  | cons packId rest ih =>
    have hhead : (cleanupRemoteBackedPackSpool packId : FileProg P ε Unit).run w =
        (.ok (), { w with spool := without [packId] w.spool }) := by
      have hspool : without [packId] w.spool =
          { manifests := Function.update w.spool.manifests packId none
            shards := Function.update w.spool.shards packId
              (Function.update (Function.update (Function.update (w.spool.shards packId) 0 none)
                1 none) 2 none) } := by
        simp only [without, List.mem_singleton, SpoolDir.mk.injEq]
        constructor
        · funext other
          rw [Function.update_apply]
        · funext other i
          by_cases h : other = packId
          · subst h
            have htotal : totalShards = 3 := rfl
            simp only [Function.update_self, Function.update_apply, htotal, true_and]
            split_ifs <;> first | rfl | omega
          · simp [h]
      rw [hspool]
      simp [cleanupRemoteBackedPackSpool, deleteManifest, deleteShardFile]
    rw [removeSpoolFiles, Prog.run_bind_of_ok hhead, ih]
    have htail : without rest (without [packId] w.spool) = without (packId :: rest) w.spool := by
      simp only [without, List.mem_cons, SpoolDir.mk.injEq]
      constructor
      · funext other
        split_ifs <;> simp_all
      · funext other i
        split_ifs <;> simp_all
    rw [htail]

/-- The packs of the revisions of the first file that has the bare name of a failed job. -/
def packsByName (jobId : ℤ) (w : IngestWorld P) : List String :=
  ((w.jobs.getIngestJob jobId).filter (·.state = .failed)).elim [] fun row =>
    (Db.fileNamed (fileName row.filePath) w.files.db).elim [] fun inodeId =>
      Db.packIdsForInode inodeId w.files.db

/-- A cleanup removes the files of these packs and no others. -/
theorem files_cleanupFailedIngest (jobId : ℤ) (w : IngestWorld P) :
    ((cleanupFailedIngest jobId).run w).2.files =
      { w.files with spool := without (packsByName jobId w) w.files.spool } := by
  have hnone : without [] w.files.spool = w.files.spool := by simp [without]
  unfold cleanupFailedIngest packsByName
  rw [Prog.run_query_bind]
  cases hrow : w.jobs.getIngestJob jobId with
  | none => simp [hnone]
  | some row =>
    by_cases hfailed : row.state = .failed
    · have hselect : (onIngestFiles (selectFiles (Db.fileNamed (fileName row.filePath))) :
          IngestProg P (Option ℤ)).run w =
          (.ok (Db.fileNamed (fileName row.filePath) w.files.db), w) := by
        rw [run_onIngestFiles, run_selectFiles]
      simp only [hfailed, ne_eq, not_true_eq_false, if_false]
      rw [Prog.run_bind_of_ok hselect]
      cases hinode : Db.fileNamed (fileName row.filePath) w.files.db with
      | none => simp [Option.filter, hnone, hfailed, hinode]
      | some inodeId =>
        have hpacks : (onIngestFiles (selectFiles (Db.packIdsForInode inodeId)) :
            IngestProg P (List String)).run w = (.ok (Db.packIdsForInode inodeId w.files.db), w) := by
          rw [run_onIngestFiles, run_selectFiles]
        have hremove : ∀ packIds, (onIngestFiles (removeSpoolFiles packIds) : IngestProg P Unit).run w
            = (.ok (), { w with
                files := { w.files with spool := without packIds w.files.spool } }) := by
          intro packIds
          rw [run_onIngestFiles, run_removeSpoolFiles]
        dsimp only
        rw [Prog.run_bind_of_ok hpacks, Prog.run_bind_of_ok (hremove _)]
        simp [Option.filter, hfailed, hinode]
    · simp [Option.filter, hfailed, hnone]

theorem sameFiles_without_iff {packIds : List String} {packId : String} {spool : SpoolDir} :
    SameFiles packId spool (without packIds spool) ↔ packId ∈ packIds → Absent packId spool := by
  constructor
  · intro h hmem
    constructor
    · have hmanifest := h.manifest
      rw [manifests_without, if_pos hmem] at hmanifest
      exact hmanifest.symm
    · intro i hi
      have hshard := h.shards i
      rw [shards_without, if_pos ⟨hmem, hi⟩] at hshard
      exact hshard.symm
  · intro h
    by_cases hmem : packId ∈ packIds
    · constructor
      · rw [manifests_without, if_pos hmem, (h hmem).manifest]
      · intro i
        simp only [shards_without, hmem, true_and]
        split
        · rename_i hi
          rw [(h hmem).shards i hi]
        · rfl
    · constructor
      · rw [manifests_without, if_neg hmem]
      · intro i
        rw [shards_without, if_neg fun hand => hmem hand.1]

/-! ## What a cleanup has to leave -/

/-- A pack that is read from the spool. -/
def LocalOnly (packId : String) (db : FileDb) : Prop :=
  ∃ pack ∈ db.packs, pack.packId = packId ∧ pack.storageMode = .localOnly

/-- A queued or running job uploads the pack. -/
def JobOutstanding (packId : String) (db : FileDb) : Prop :=
  ∃ job ∈ db.uploadJobs, job.packId = packId ∧
    (job.status = .pending ∨ job.status = .inProgress)

/-- All shards of the pack are stored. -/
def AllCompleted (packId : String) (db : FileDb) : Prop :=
  ∀ shard ∈ db.packShards, shard.packId = packId → shard.status = .completed

/-- A pack whose spool files are still needed; `own` is the revision that the failed attempt made,
if it made one. -/
inductive Needed (own : Option ℤ) (db : FileDb) (packId : String) : Prop where
  | localOnly (h : LocalOnly packId db)
  | uploading (hjob : JobOutstanding packId db) (hshards : ¬ AllCompleted packId db)
  | referenced (r : FileRevisionRecord) (h : Db.RefersTo packId db r)
      (hother : some r.revisionId ≠ own)

/-- Run upload jobs one after the other, each with what becomes of its shards. -/
def processJobs : List (String × (PackShardRecord → ShardAnswer)) →
    FileProg P UploaderError (List (Except UploaderError JobProcessOutcome))
  | [] => pure []
  | job :: rest => do
    let outcome ← (processJob job.2 job.1).attempt
    let outcomes ← processJobs rest
    pure (outcome :: outcomes)

/-- The files of needed packs stay, every file reads as before, and every sequence of the outstanding
uploads comes out as before. -/
structure Harmless (own : Option ℤ) (old new : FileWorld P) : Prop where
  spool : ∀ packId, Needed own old.db packId → SameFiles packId old.spool new.spool
  files : ∀ (C : ChunkPrimitives P) (net : Network) (inodeId : ℤ),
    ((restoreFile C net inodeId).run new).1 = ((restoreFile C net inodeId).run old).1
  chunks : ∀ (C : ChunkPrimitives P) (net : Network) (vaultKey : P.Key)
    (chunk : FileChunkLocation),
    ((readChunk C net vaultKey [] chunk).run new).1 =
      ((readChunk C net vaultKey [] chunk).run old).1
  uploads : ∀ jobs : List (String × (PackShardRecord → ShardAnswer)),
    (∀ job ∈ jobs, JobOutstanding job.1 old.db) →
      ((processJobs jobs).run new).1 = ((processJobs jobs).run old).1

/-! ## Reading and the spool -/

section Reads

variable {rows : List PackRecord}

/-- The worlds agree but for the spool, and in the spool on the packs that are read from it. -/
structure ReadAlike (rows : List PackRecord) (s t : FileWorld P) : Prop where
  same : t = { s with spool := t.spool }
  packs : s.db.packs = rows
  manifests : ∀ pack ∈ rows, pack.storageMode = .localOnly →
    t.spool.manifests pack.packId = s.spool.manifests pack.packId

/-- A query that does not look at the spool. -/
theorem alike_query {f : FileWorld P → α} (h : ∀ w spool, f { w with spool } = f w) :
    (Prog.query f : FileProg P ε α).Alike (ReadAlike rows) fun _ => True := by
  apply Prog.Alike.query
  intro s t hst
  rw [hst.same]
  exact (h s t.spool).symm

/-- A write that has nothing to do with the spool and the packs. -/
theorem alike_exec {f : FileWorld P → FileWorld P}
    (h : ∀ w spool, f { w with spool } = { f w with spool }) (hspool : ∀ w, (f w).spool = w.spool)
    (hpacks : ∀ w, (f w).db.packs = w.db.packs) :
    (Prog.exec f : FileProg P ε Unit).Alike (ReadAlike rows) fun _ => True := by
  apply Prog.Alike.exec
  intro s t hst
  refine ⟨?_, (hpacks s).trans hst.packs, ?_⟩
  · rw [hspool t]
    conv_lhs => rw [hst.same, h]
  · rw [hspool s, hspool t]
    exact hst.manifests

theorem alike_onVault (toError : VaultError → ε) (p : VaultProg P α) :
    (onVault toError p).Alike (ReadAlike rows) fun _ => True := by
  apply Prog.Alike.zoom
  · intro s t hst
    rw [hst.same]
  · intro vault s t hst
    refine ⟨?_, hst.packs, hst.manifests⟩
    conv_lhs => rw [hst.same]

theorem alike_selectFiles (f : FileDb → α) :
    (selectFiles f : FileProg P ε α).Alike (ReadAlike rows) fun _ => True :=
  alike_query fun _ _ => rfl

theorem alike_dekForPack (packId : String) :
    (VaultKeyStore.dekForPack packId : FileProg P VaultError P.Key).Alike (ReadAlike rows)
      fun _ => True := by
  apply (alike_selectFiles _).bind
  intro dekId _
  cases dekId with
  | some dekId =>
    apply (alike_onVault _ _).bind
    intro record _
    apply (Prog.Alike.ofOption _ _).bind
    intro record _
    exact alike_onVault _ _
  | none =>
    apply (alike_selectFiles _).bind
    intro inodeId _
    apply (Prog.Alike.ofOption _ _).bind
    intro inodeId _
    apply (alike_onVault _ _).bind
    intro record _
    apply (Prog.Alike.ofOption _ _).bind
    intro record _
    apply (alike_onVault _ _).bind
    intro dek _
    have hbind : (Db.setPackDek packId record.dekId : FileProg P VaultError Unit).Alike
        (ReadAlike rows) fun _ => True :=
      alike_exec (fun _ _ => rfl) (fun _ => rfl) fun _ => rfl
    exact hbind.bind fun _ _ => trivial

theorem alike_packDek (packId : String) :
    (packDek packId : FileProg P ε (Option P.Key)).Alike (ReadAlike rows) fun _ => True := by
  apply (alike_dekForPack packId).attempt.bind
  intro found _
  cases found with
  | error e => trivial
  | ok dek => trivial

/-- A source that is no manifest of a pack that has been uploaded. -/
def ReadFrom (rows : List PackRecord) (source : RestoredPackSource) : Prop :=
  ∀ packId, source.localPath = .manifest packId →
    ∃ pack ∈ rows, pack.packId = packId ∧ pack.storageMode = .localOnly

variable (C : ChunkPrimitives P) (net : Network)

theorem alike_fetchShards (required : ℕ) (shards : List PackShardRecord)
    (fetched : FetchedShards) :
    (fetchShards net required fetched shards : FileProg P DownloaderError _).Alike
      (ReadAlike rows) fun _ => True := by
  induction shards generalizing fetched with
  | nil => trivial
  | cons shard rest ih =>
    have hdownload : (downloadShard net shard : FileProg P DownloaderError _).Alike
        (ReadAlike rows) fun _ => True := by
      apply (alike_query fun _ _ => rfl).bind
      intro object _
      cases object with
      | none => trivial
      | some bytes => trivial
    apply (Prog.Alike.ofExcept _).bind
    intro index _
    split
    · exact ih fetched
    · apply hdownload.bind
      intro answer _
      cases answer with
      | error err => exact ih _
      | ok bytes =>
        dsimp only
        split
        · trivial
        · exact ih _

theorem alike_downloadRemotePack (pack : PackRecord) :
    (downloadRemotePack C net pack).Alike (ReadAlike rows) (ReadFrom rows) := by
  apply (alike_selectFiles _).bind
  intro shards _
  split
  · trivial
  split
  · trivial
  apply (alike_fetchShards net _ _ _).bind
  intro fetched _
  split
  · trivial
  apply (Prog.Alike.ofExcept _).bind
  intro ciphertext _
  apply (Prog.Alike.ofExcept _).bind
  intro manifestBytes _
  have hwrite : (writeDownload pack.packId manifestBytes : FileProg P DownloaderError Unit).Alike
      (ReadAlike rows) fun _ => True :=
    alike_exec (fun _ _ => rfl) (fun _ => rfl) fun _ => rfl
  apply hwrite.bind
  intro _ _ packId hmanifest
  cases hmanifest

theorem alike_downloadPack (packId : String) :
    (downloadPack C net packId).Alike (ReadAlike rows) (ReadFrom rows) := by
  apply Prog.Alike.query_bind
  intro s t hst
  have hfound : Db.packOf packId s.db = Db.packOf packId t.db := by rw [hst.same]
  refine ⟨hfound, ?_⟩
  cases hpack : Db.packOf packId s.db with
  | none => trivial
  | some pack =>
    have hmem : pack ∈ rows := hst.packs ▸ List.mem_of_find?_eq_some hpack
    have hid : pack.packId = packId := by simpa using List.find?_some hpack
    rw [Prog.ofOption_some, Prog.ret_bind]
    split
    · rename_i hlocal
      apply Prog.Alike.query_bind
      intro s' t' hst'
      constructor
      · rw [← hid]
        exact (hst'.manifests pack hmem hlocal).symm
      · split
        · trivial
        · intro packId' hmanifest
          cases hmanifest
          exact ⟨pack, hmem, hid, hlocal⟩
    · apply (alike_query fun _ _ => rfl).bind
      intro downloaded _
      split
      · intro packId' hmanifest
        cases hmanifest
      · exact alike_downloadRemotePack C net pack

/-- The sources of the packs downloaded so far can be read again. -/
def AllReadFrom (rows : List PackRecord) (downloaded : DownloadedPacks) : Prop :=
  ∀ entry ∈ downloaded, ReadFrom rows entry.2

theorem alike_packSource {downloaded : DownloadedPacks} (h : AllReadFrom rows downloaded)
    (packId : String) : (packSource C net downloaded packId).Alike (ReadAlike rows)
      fun found => ReadFrom rows found.1 ∧ AllReadFrom rows found.2 := by
  unfold packSource
  cases hfound : downloaded.lookup packId with
  | some existing =>
    obtain ⟨front, back, hsplit, -⟩ := List.lookup_eq_some_iff.mp hfound
    have hmem : (packId, existing) ∈ downloaded := by simp [hsplit]
    exact ⟨h _ hmem, h⟩
  | none =>
    apply (alike_downloadPack C net packId).bind
    intro source hsource
    refine ⟨hsource, fun entry hentry => ?_⟩
    cases hentry with
    | head => exact hsource
    | tail _ hrest => exact h entry hrest

theorem alike_readSpoolFile {source : RestoredPackSource} (h : ReadFrom rows source) :
    (readSpoolFile source.localPath : FileProg P DownloaderError Bytes).Alike (ReadAlike rows)
      fun _ => True := by
  have hread : (Prog.query (spoolFile source.localPath) : FileProg P DownloaderError _).Alike
      (ReadAlike rows) fun _ => True := by
    apply Prog.Alike.query
    intro s t hst
    cases hpath : source.localPath with
    | manifest packId =>
      obtain ⟨pack, hpack, hid, hlocal⟩ := h packId hpath
      rw [← hid]
      exact (hst.manifests pack hpack hlocal).symm
    | download packId =>
      rw [hst.same]
      rfl
  apply hread.bind
  intro bytes _
  exact (Prog.Alike.ofOption _ _).mono fun _ _ => trivial

theorem alike_readChunk (vaultKey : P.Key) {downloaded : DownloadedPacks}
    (h : AllReadFrom rows downloaded) (chunk : FileChunkLocation) :
    (readChunk C net vaultKey downloaded chunk).Alike (ReadAlike rows)
      fun found => AllReadFrom rows found.2 := by
  apply (alike_packSource C net h chunk.packId).bind
  intro found hfound
  apply (alike_readSpoolFile hfound.1).bind
  intro packBytes _
  apply (alike_packDek chunk.packId).bind
  intro dek _
  apply (Prog.Alike.ofExcept _).bind
  intro plaintext _
  exact hfound.2

theorem alike_restoreChunks (vaultKey : P.Key) (chunks : List FileChunkLocation)
    (output : OutputFile) {downloaded : DownloadedPacks} (h : AllReadFrom rows downloaded) :
    (restoreChunks C net vaultKey output downloaded chunks).Alike (ReadAlike rows)
      fun _ => True := by
  induction chunks generalizing output downloaded with
  | nil => trivial
  | cons chunk rest ih =>
    apply (alike_readChunk C net vaultKey h chunk).bind
    intro found hfound
    apply (Prog.Alike.ofExcept _).bind
    intro output' _
    exact ih output' hfound

theorem allReadFrom_nil : AllReadFrom rows [] := by
  intro entry hentry
  cases hentry

theorem alike_restoreFile (inodeId : ℤ) :
    (restoreFile C net inodeId).Alike (ReadAlike rows) fun _ => True := by
  apply (alike_onVault _ _).bind
  intro vaultKey _
  apply (alike_selectFiles _).bind
  intro chunkLocations _
  split
  · trivial
  · apply (alike_restoreChunks C net vaultKey chunkLocations {} allReadFrom_nil).bind
    intro found _
    trivial

end Reads

/-! ## Uploading and the spool -/

section Uploads

/-- The worlds agree but for the spool, in the spool on the packs of `agree`, and all shards of the
packs of `stored` are stored. -/
structure UploadAlike (agree stored : String → Prop) (s t : FileWorld P) : Prop where
  same : t = { s with spool := t.spool }
  shards : ∀ packId, agree packId → t.spool.shards packId = s.spool.shards packId
  completed : ∀ packId, stored packId → AllCompleted packId s.db

variable {agree stored : String → Prop}

/-- A write of the file tables that leaves the stored packs alone. -/
theorem upload_writeFiles {f : FileDb → FileDb}
    (h : ∀ db packId, stored packId → AllCompleted packId db → AllCompleted packId (f db)) :
    (writeFiles f : FileProg P ε Unit).Alike (UploadAlike agree stored) fun _ => True := by
  apply Prog.Alike.exec
  intro s t hst
  refine ⟨?_, hst.shards, fun packId hpack => h _ packId hpack (hst.completed packId hpack)⟩
  conv_lhs => rw [hst.same]

theorem upload_query {f : FileWorld P → α} (h : ∀ w spool, f { w with spool } = f w) :
    (Prog.query f : FileProg P ε α).Alike (UploadAlike agree stored) fun _ => True := by
  apply Prog.Alike.query
  intro s t hst
  rw [hst.same]
  exact (h s t.spool).symm

/-- What an upload notes about a shard of its pack does not touch a stored pack. -/
theorem upload_updateShard {packId : String} (hpack : ¬ stored packId) (shardIndex : ℤ)
    {f : PackShardRecord → PackShardRecord} (hf : ∀ s, (f s).packId = s.packId) :
    (writeFiles (Db.updateShard packId shardIndex f) : FileProg P ε Unit).Alike
      (UploadAlike agree stored) fun _ => True := by
  apply upload_writeFiles
  intro db other hstored hall shard hshard hid
  obtain ⟨old, hold, hupdated⟩ := mem_updateWhere.mp hshard
  split at hupdated
  · rename_i hcond
    have hold : old.packId = packId := by simpa using (Bool.and_eq_true_iff.mp hcond).1
    rw [← hupdated, hf, hold] at hid
    exact absurd (hid ▸ hstored) hpack
  · exact hall shard (hupdated ▸ hold) hid

theorem upload_updatePackStatus (packId : String) (status : PackStatus) :
    (Db.updatePackStatus packId status : FileProg P ε Unit).Alike (UploadAlike agree stored)
      fun _ => True :=
  upload_writeFiles fun _ _ _ h => h

theorem upload_settlePackStatus (pack : PackRecord) :
    (settlePackStatus pack : FileProg P ε PackStatus).Alike (UploadAlike agree stored)
      fun _ => True := by
  apply (upload_query fun _ _ => rfl).bind
  intro summary _
  exact (upload_updatePackStatus _ _).bind fun _ _ => trivial

theorem upload_deleteManifest (packId : String) :
    (deleteManifest packId : FileProg P ε Unit).Alike (UploadAlike agree stored)
      fun _ => True := by
  apply Prog.Alike.exec
  intro s t hst
  refine ⟨?_, hst.shards, hst.completed⟩
  conv_lhs => rw [hst.same]

theorem upload_deleteShardFile (packId : String) (index : ℕ) :
    (deleteShardFile packId index : FileProg P ε Unit).Alike (UploadAlike agree stored)
      fun _ => True := by
  apply Prog.Alike.exec
  intro s t hst
  refine ⟨?_, ?_, hst.completed⟩
  · conv_lhs => rw [hst.same]
  · intro other hother
    by_cases hsame : other = packId
    · subst hsame
      simp [hst.shards other hother]
    · simp [hsame, hst.shards other hother]

theorem upload_cleanupAfter (pack : PackRecord) (status : PackStatus) :
    (cleanupAfter pack status : FileProg P ε Unit).Alike (UploadAlike agree stored)
      fun _ => True := by
  unfold cleanupAfter
  split
  · apply (upload_deleteManifest _).bind
    intro _ _
    apply (upload_deleteShardFile _ _).bind
    intro _ _
    apply (upload_deleteShardFile _ _).bind
    intro _ _
    exact upload_deleteShardFile _ _
  · trivial

/-- A shard whose local file is the same on both sides. -/
theorem upload_storeShard {shard : PackShardRecord} (hagree : agree shard.packId)
    (hpack : ¬ stored shard.packId) :
    (storeShard shard : FileProg P ε Unit).Alike (UploadAlike agree stored) fun _ => True := by
  have hfile : ∀ s t : FileWorld P, UploadAlike agree stored s t →
      s.spool.shards shard.packId shard.shardIndex.toNat =
        t.spool.shards shard.packId shard.shardIndex.toNat := by
    intro s t hst
    rw [hst.shards _ hagree]
  have hput : (putShardObject shard : FileProg P ε Unit).Alike (UploadAlike agree stored)
      fun _ => True := by
    apply Prog.Alike.exec
    intro s t hst
    rw [← hfile s t hst]
    cases s.spool.shards shard.packId shard.shardIndex.toNat with
    | none => exact hst
    | some bytes =>
      refine ⟨?_, hst.shards, hst.completed⟩
      conv_lhs => rw [hst.same]
  have hinProgress : (Db.markPackShardInProgress shard.packId shard.shardIndex :
      FileProg P ε Unit).Alike (UploadAlike agree stored) fun _ => True :=
    upload_updateShard hpack _ fun _ => rfl
  apply hinProgress.bind
  intro _ _
  apply (Prog.Alike.query hfile).bind
  intro file _
  split
  · exact upload_updateShard hpack _ fun _ => rfl
  · apply hput.bind
    intro _ _
    exact upload_updateShard hpack _ fun _ => rfl

theorem upload_uploadShard (answer : PackShardRecord → ShardAnswer) {shard : PackShardRecord}
    (hagree : agree shard.packId) (hpack : ¬ stored shard.packId) :
    (uploadShard answer shard : FileProg P UploaderError Bool).Alike (UploadAlike agree stored)
      fun _ => True := by
  unfold uploadShard
  cases answer shard with
  | retried message permanent =>
    have hrequeue : (Db.requeuePackShard shard.packId shard.shardIndex message :
        FileProg P UploaderError Unit).Alike (UploadAlike agree stored) fun _ => True :=
      upload_updateShard hpack _ fun _ => rfl
    have hretry : (retryShard shard message permanent : FileProg P UploaderError Unit).Alike
        (UploadAlike agree stored) fun _ => True := by
      apply hrequeue.bind
      intro _ _
      split
      · exact upload_updateShard hpack _ fun _ => rfl
      · trivial
    exact hretry.bind fun _ _ => trivial
  | failed message =>
    have hfailed : (Db.markPackShardFailed shard.packId shard.shardIndex message :
        FileProg P UploaderError Unit).Alike (UploadAlike agree stored) fun _ => True :=
      upload_updateShard hpack _ fun _ => rfl
    exact hfailed.bind fun _ _ => trivial
  | suspended reason => trivial
  | stored => exact (upload_storeShard hagree hpack).bind fun _ _ => trivial

theorem upload_uploadShards (answer : PackShardRecord → ShardAnswer)
    {shards : List PackShardRecord} (hagree : ∀ shard ∈ shards, agree shard.packId)
    (hpack : ∀ shard ∈ shards, ¬ stored shard.packId) :
    (uploadShards answer shards : FileProg P UploaderError Bool).Alike
      (UploadAlike agree stored) fun _ => True := by
  induction shards with
  | nil => trivial
  | cons shard rest ih =>
    apply (upload_uploadShard answer (hagree _ List.mem_cons_self)
      (hpack _ List.mem_cons_self)).bind
    intro goes _
    split
    · exact ih (fun s hs => hagree s (List.mem_cons_of_mem _ hs))
        fun s hs => hpack s (List.mem_cons_of_mem _ hs)
    · trivial

/-- A stored pack has no shards left to send; of any other the local shards are the same. -/
theorem upload_processJob (answer : PackShardRecord → ShardAnswer) {packId : String}
    (h : stored packId ∨ agree packId) :
    (processJob answer packId : FileProg P UploaderError _).Alike (UploadAlike agree stored)
      fun _ => True := by
  apply (upload_query fun _ _ => rfl).bind
  intro pack _
  apply (Prog.Alike.ofOption _ _).bind
  intro pack _
  apply Prog.Alike.query_bind
  intro s t hst
  have hsame : s.db = t.db := by rw [hst.same]
  refine ⟨by rw [hsame], ?_⟩
  dsimp only
  have hsettle : (settlePackStatus pack : FileProg P UploaderError PackStatus).Alike
      (UploadAlike agree stored) fun _ => True := upload_settlePackStatus pack
  by_cases hstored : stored packId
  · have hempty : (Db.shardsOf packId s.db).filter (fun shard =>
        shard.status ≠ .completed && shard.status ≠ .permanentlyFailed) = [] := by
      rw [List.filter_eq_nil_iff]
      intro shard hshard
      rw [Db.shardsOf, mem_orderBy, List.mem_filter] at hshard
      simp [hst.completed packId hstored shard hshard.1 (of_decide_eq_true hshard.2)]
    rw [if_pos (List.isEmpty_iff.mpr hempty)]
    exact hsettle.bind fun _ _ => trivial
  · have hagree := h.resolve_left hstored
    have hid : ∀ shard ∈ (Db.shardsOf packId s.db).filter (fun shard =>
        shard.status ≠ .completed && shard.status ≠ .permanentlyFailed),
        shard.packId = packId := by
      intro shard hshard
      have hmem := List.mem_of_mem_filter hshard
      rw [Db.shardsOf, mem_orderBy, List.mem_filter] at hmem
      exact of_decide_eq_true hmem.2
    split
    · exact hsettle.bind fun _ _ => trivial
    · apply (upload_uploadShards answer (fun shard hshard => hid shard hshard ▸ hagree)
        fun shard hshard => hid shard hshard ▸ hstored).bind
      intro goes _
      split
      · apply hsettle.bind
        intro status _
        exact (upload_cleanupAfter pack status).bind fun _ _ => trivial
      · trivial

theorem upload_processJobs {jobs : List (String × (PackShardRecord → ShardAnswer))}
    (h : ∀ job ∈ jobs, stored job.1 ∨ agree job.1) :
    (processJobs jobs : FileProg P UploaderError _).Alike (UploadAlike agree stored)
      fun _ => True := by
  induction jobs with
  | nil => trivial
  | cons job rest ih =>
    apply (upload_processJob job.2 (h job List.mem_cons_self)).attempt.bind
    intro outcome _
    apply (ih fun job' hjob => h job' (List.mem_cons_of_mem _ hjob)).bind
    intro outcomes _
    trivial

end Uploads

/-! ## Cleanups -/

/-- A cleanup that keeps the files of needed packs harms no read and no upload. -/
theorem harmless_of_sameFiles {own : Option ℤ} {packIds : List String} {w : FileWorld P}
    (h : ∀ packId, Needed own w.db packId →
      SameFiles packId w.spool (without packIds w.spool)) :
    Harmless own w { w with spool := without packIds w.spool } := by
  have hread : ReadAlike w.db.packs w { w with spool := without packIds w.spool } := by
    refine ⟨rfl, rfl, fun pack hpack hlocal => ?_⟩
    exact (h pack.packId (.localOnly ⟨pack, hpack, rfl, hlocal⟩)).manifest
  have hupload : UploadAlike
      (fun packId => JobOutstanding packId w.db ∧ ¬ AllCompleted packId w.db)
      (fun packId => AllCompleted packId w.db) w
      { w with spool := without packIds w.spool } := by
    refine ⟨rfl, fun packId hpack => ?_, fun packId hpack => hpack⟩
    funext i
    exact (h packId (.uploading hpack.1 hpack.2)).shards i
  refine ⟨h, fun C net inodeId => ?_, fun C net vaultKey chunk => ?_, fun jobs hjobs => ?_⟩
  · exact ((alike_restoreFile C net inodeId).run hread).1.symm
  · exact ((alike_readChunk C net vaultKey allReadFrom_nil chunk).run hread).1.symm
  · refine ((upload_processJobs fun job hjob => ?_).run hupload).1.symm
    by_cases hall : AllCompleted job.1 w.db
    · exact .inl hall
    · exact .inr ⟨hjobs job hjob, hall⟩

/-- Where it does no harm, it finds no files of needed packs to remove. -/
theorem Harmless.absent {own : Option ℤ} {jobId : ℤ} {w : IngestWorld P}
    (h : Harmless own w.files ((cleanupFailedIngest jobId).run w).2.files) {packId : String}
    (hmem : packId ∈ packsByName jobId w) (hneeded : Needed own w.files.db packId) :
    Absent packId w.files.spool := by
  rw [files_cleanupFailedIngest] at h
  exact sameFiles_without_iff.mp (h.spool packId hneeded) hmem

/-- A cleanup is harmless exactly when, of the packs that it finds by the bare name, those that are
still needed have no files in the spool. -/
theorem cleanup_harmless_iff (own : Option ℤ) (jobId : ℤ) (w : IngestWorld P) :
    Harmless own w.files ((cleanupFailedIngest jobId).run w).2.files ↔
      ∀ packId ∈ packsByName jobId w, Needed own w.files.db packId →
        Absent packId w.files.spool := by
  constructor
  · intro h packId hmem hneeded
    exact h.absent hmem hneeded
  · intro h
    rw [files_cleanupFailedIngest]
    apply harmless_of_sameFiles
    intro packId hneeded
    exact sameFiles_without_iff.mpr fun hmem => h packId hmem hneeded

/-- A failed job for `new/a.txt`, and another `a.txt` that is kept on this device only. -/
def twoNames : IngestWorld symbolic where
  files :=
    { vault := openVault
      db :=
        { inodes :=
            [{ id := 1, parentId := none, name := "docs", kind := "DIR", size := 0 },
             { id := 2, parentId := some 1, name := "a.txt", kind := "FILE", size := 4 },
             { id := 3, parentId := none, name := "new", kind := "DIR", size := 0 },
             { id := 4, parentId := some 3, name := "a.txt", kind := "FILE", size := 9 }]
          fileRevisions :=
            [{ revisionId := 1, inodeId := 2, createdAt := 0, size := 4, isCurrent := true
               immutableUntil := none, deviceId := none, parentRevisionId := none
               origin := "LOCAL", conflictReason := none }]
          chunkRefs := [{ id := 1, revisionId := 1, chunkId := [7], fileOffset := 0, size := 4 }]
          packs :=
            [{ packId := "pack", chunkId := [7], plaintextHash := none, storageMode := .localOnly
               encryptionVersion := 2, ecScheme := Packer.storageModeScheme .localOnly
               logicalSize := 4, cipherSize := 4, shardSize := 0, nonce := [], gcmTag := []
               status := .healthy }]
          packLocations :=
            [{ chunkId := [7], packId := "pack", packOffset := 0, encryptedSize := 4 }] }
      spool := { manifests := Function.update (fun _ => none) "pack" (some [1, 2, 3, 4]) } }
  jobs :=
    { rows :=
        [{ id := 1, filePath := "new/a.txt", fileSize := 9, state := .failed, attemptCount := 1
           errorMessage := some "packer error: vault is locked", createdAt := 0, updatedAt := 0 }]
      sequence := 1 }

/-- The cleanup of that job removes the only copy of the other file. -/
theorem cleanup_removes_local_only :
    ¬ ∀ (own : Option ℤ) (jobId : ℤ) (w : IngestWorld symbolic),
      Harmless own w.files ((cleanupFailedIngest jobId).run w).2.files := by
  intro hall
  have hselected : "pack" ∈ packsByName 1 twoNames := by decide
  have hlocal : LocalOnly "pack" twoNames.files.db := ⟨_, List.mem_singleton_self _, rfl, rfl⟩
  have hneeded : Needed none twoNames.files.db "pack" := .localOnly hlocal
  have habsent := (hall none 1 twoNames).absent hselected hneeded
  have hmanifest : twoNames.files.spool.manifests "pack" = some [1, 2, 3, 4] := rfl
  rw [habsent.manifest] at hmanifest
  cases hmanifest

end Ingest

end OmniDrive
