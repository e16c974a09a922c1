import OmniDrive.Storage.PackerFrame
import OmniDrive.Storage.WriteOutcome

/-!
# What packing a file does

A run of the packer, whether it succeeds or not, leaves a store in which every revision refers to
stored chunks that make up its size. Where it succeeds, the new revision is the current one and
refers to chunks of the packed bytes.
-/

namespace OmniDrive

open StatementProgram Tables ByteFields Packer

variable {P : Primitives} {C : ChunkPrimitives P} {known : Bytes → Prop} {cur vaultKey : P.Key}
  {all chunks : List StoredChunk} {ε : Type}

/-! ## References in order -/

/-- References that follow one another are in the order of their offsets. -/
theorem RefsFrom.pairwise {offset : ℤ} {cs : List StoredChunk} {rows : List ChunkRefRecord}
    (h : RefsFrom C offset cs rows) : (∀ r ∈ rows, offset ≤ r.fileOffset) ∧
      rows.Pairwise fun a b => a.fileOffset ≤ b.fileOffset := by
  induction cs generalizing offset rows with
  | nil =>
    cases rows with
    | nil => simp
    | cons r rest => exact h.elim
  | cons c cs ih =>
    cases rows with
    | nil => exact h.elim
    | cons r rest =>
      obtain ⟨⟨-, hoffset, -⟩, htail⟩ := h
      obtain ⟨hle, hpair⟩ := ih htail
      constructor
      · intro r' hr'
        rcases List.mem_cons.mp hr' with hhead | hrest
        · rw [hhead, hoffset]
        · have hlater := hle r' hrest
          omega
      · rw [List.pairwise_cons]
        refine ⟨fun r' hr' => ?_, hpair⟩
        have hlater := hle r' hr'
        omega

/-- The references of a described revision come in the order of the table. -/
theorem refsOf_eq {revisionId : ℤ} {db : FileDb} {cs : List StoredChunk}
    (h : RefsFrom C 0 cs (refRows revisionId db)) : Db.refsOf revisionId db = refRows revisionId db :=
  orderBy_eq_self h.pairwise.2

/-- Copies of the references, under other identifiers, describe the same chunks. -/
theorem RefsFrom.copy {offset : ℤ} {cs : List StoredChunk} {rows rows' : List ChunkRefRecord}
    (h : RefsFrom C offset cs rows)
    (hcopy : List.Forall₂ (fun r r' : ChunkRefRecord => r'.chunkId = r.chunkId ∧
      r'.fileOffset = r.fileOffset ∧ r'.size = r.size) rows rows') :
    RefsFrom C offset cs rows' := by
  induction hcopy generalizing offset cs with
  | nil => exact h
  | cons hhead _ ih =>
    cases cs with
    | nil => exact h.elim
    | cons c cs =>
      obtain ⟨⟨hid, hoffset, hsize⟩, htail⟩ := h
      exact ⟨⟨hhead.1.trans hid, hhead.2.1.trans hoffset, hhead.2.2.trans hsize⟩, ih htail⟩

/-! ## A new revision -/

/-- A revision stays described when more chunks are stored. -/
theorem RevisionsInv.mono {db : FileDb} (h : RevisionsInv C chunks db) {chunks' : List StoredChunk}
    (hsub : ∀ c ∈ chunks, c ∈ chunks') : RevisionsInv C chunks' db where
  revisionIds := h.revisionIds
  refIds := h.refIds
  nodup := h.nodup
  described fr hfr := by
    obtain ⟨cs, hcs, hrefs, hsize⟩ := h.described fr hfr
    exact ⟨cs, fun c hc => hsub c (hcs c hc), hrefs, hsize⟩

/-- A new revision joins the others once its references are written. -/
theorem RevisionsInv.add {db db' : FileDb} (h : RevisionsInv C chunks db) (inodeId : ℤ)
    (fr : FileRevisionRecord) {rows : List ChunkRefRecord} {cs chunks' : List StoredChunk}
    (hsub : ∀ c ∈ chunks, c ∈ chunks') (hcs : ∀ c ∈ cs, c ∈ chunks')
    (hrevisions : db'.fileRevisions = (Db.clearCurrent inodeId db).fileRevisions ++ [fr])
    (hid : fr.revisionId = db.revisionSequence + 1)
    (hseq : db'.revisionSequence = db.revisionSequence + 1)
    (hrefs : db'.chunkRefs = db.chunkRefs ++ rows)
    (hrows : ∀ r ∈ rows, r.revisionId = fr.revisionId) (hfrom : RefsFrom C 0 cs rows)
    (hsize : fr.size = plainSize cs) : RevisionsInv C chunks' db' := by
  have hmem : ∀ r ∈ (Db.clearCurrent inodeId db).fileRevisions,
      ∃ old ∈ db.fileRevisions, old.revisionId = r.revisionId ∧ old.size = r.size := by
    intro r hr
    obtain ⟨old, hold, heq⟩ := mem_updateWhere.mp hr
    refine ⟨old, hold, ?_⟩
    rw [← heq]
    split
    · exact ⟨rfl, rfl⟩
    · exact ⟨rfl, rfl⟩
  constructor
  · intro r hr
    rw [hrevisions] at hr
    rw [hseq]
    rcases List.mem_append.mp hr with hold | hnew
    · obtain ⟨old, hold, heq, -⟩ := hmem r hold
      have hle := h.revisionIds old hold
      omega
    · rw [List.mem_singleton.mp hnew, hid]
  · intro cr hcr
    rw [hrefs] at hcr
    rw [hseq]
    rcases List.mem_append.mp hcr with hold | hnew
    · have hle := h.refIds cr hold
      omega
    · rw [hrows cr hnew, hid]
  · rw [hrevisions]
    apply nodup_append_fresh
    · have hkeys : (Db.clearCurrent inodeId db).fileRevisions.map (·.revisionId) =
          db.fileRevisions.map (·.revisionId) := by
        apply map_updateWhere
        intro r
        rfl
      rw [hkeys]
      exact h.nodup
    · intro r hr
      obtain ⟨old, hold, heq, -⟩ := hmem r hr
      have hle := h.revisionIds old hold
      omega
  · intro r hr
    rw [hrevisions] at hr
    rcases List.mem_append.mp hr with hold | hnew
    · obtain ⟨old, hold, heq, holdSize⟩ := hmem r hold
      obtain ⟨cs', hcs', hfrom', hsize'⟩ := h.described old hold
      have hle := h.revisionIds old hold
      have hsame : refRows r.revisionId db' = refRows old.revisionId db := by
        have hnone : rows.filter (·.revisionId = r.revisionId) = [] := by
          rw [List.filter_eq_nil_iff]
          intro cr hcr
          have hrow := hrows cr hcr
          simp only [decide_eq_true_eq]
          omega
        rw [refRows, hrefs, List.filter_append, hnone, List.append_nil, ← heq]
        rfl
      rw [hsame, ← holdSize]
      exact ⟨cs', fun c hc => hsub c (hcs' c hc), hfrom', hsize'⟩
    · have hr : r = fr := List.mem_singleton.mp hnew
      have hsame : refRows r.revisionId db' = rows := by
        have hnone : db.chunkRefs.filter (·.revisionId = r.revisionId) = [] := by
          rw [List.filter_eq_nil_iff]
          intro cr hcr
          have hle := h.refIds cr hcr
          simp only [decide_eq_true_eq]
          rw [hr, hid]
          omega
        have hall : rows.filter (·.revisionId = r.revisionId) = rows := by
          rw [List.filter_eq_self]
          intro cr hcr
          simp only [decide_eq_true_eq]
          rw [hr, hrows cr hcr]
        rw [refRows, hrefs, List.filter_append, hnone, hall, List.nil_append]
      rw [hsame, hr]
      exact ⟨cs, hcs, hfrom, hsize⟩

/-! ## Conflict copies -/

/-- Tables that differ in their inodes and conflicts at most. -/
structure SameFiles (db db' : FileDb) : Prop where
  fileRevisions : db'.fileRevisions = db.fileRevisions
  revisionSequence : db'.revisionSequence = db.revisionSequence
  chunkRefs : db'.chunkRefs = db.chunkRefs
  packs : db'.packs = db.packs
  packShards : db'.packShards = db.packShards
  packLocations : db'.packLocations = db.packLocations
  packDeks : db'.packDeks = db.packDeks

theorem SameFiles.refl (db : FileDb) : SameFiles db db := ⟨rfl, rfl, rfl, rfl, rfl, rfl, rfl⟩

theorem SameFiles.tables {db db' : FileDb} (h : SameFiles db db') (htables : TablesInv C chunks db) :
    TablesInv C chunks db' :=
  ⟨h.packs ▸ htables.packs, h.packLocations ▸ htables.locations, h.packDeks ▸ htables.bindings,
    h.packShards ▸ htables.shards⟩

theorem SameFiles.revisions {db db' : FileDb} (h : SameFiles db db')
    (hrevisions : RevisionsInv C chunks db) : RevisionsInv C chunks db' where
  revisionIds := by
    rw [h.fileRevisions, h.revisionSequence]
    exact hrevisions.revisionIds
  refIds := by
    rw [h.chunkRefs, h.revisionSequence]
    exact hrevisions.refIds
  nodup := by
    rw [h.fileRevisions]
    exact hrevisions.nodup
  described fr hfr := by
    rw [h.fileRevisions] at hfr
    obtain ⟨cs, hcs, hrefs, hsize⟩ := hrevisions.described fr hfr
    refine ⟨cs, hcs, ?_, hsize⟩
    rw [refRows, h.chunkRefs]
    exact hrefs

/-- A new inode changes the inodes only. -/
theorem run_createInode (parentId : Option ℤ) (name kind : String) (size : ℤ) (w : FileWorld P) :
    ∃ db', ((Db.createInode parentId name kind size).run w).2 = w.withDb db' ∧
      SameFiles w.db db' := by
  rw [Db.createInode]
  rcases Db.validateInodeKind kind with e | _
  · exact ⟨w.db, rfl, .refl _⟩
  rw [Prog.ofExcept_ok, Prog.ret_bind, Prog.run_execReturning_bind]
  by_cases htaken : Db.nameTaken parentId name w.db = true
  · rw [if_pos htaken, if_pos htaken]
    exact ⟨w.db, rfl, .refl _⟩
  · rw [if_neg htaken, if_neg htaken]
    exact ⟨Db.appendInode parentId name kind size w.db, rfl, ⟨rfl, rfl, rfl, rfl, rfl, rfl, rfl⟩⟩

/-- Looking for a free name changes the inodes only. -/
theorem run_createConflictInode (parentId : Option ℤ) (baseName kind : String) (size : ℤ)
    (left attempt : ℕ) (w : FileWorld P) : ∃ db',
      ((Db.createConflictInode parentId baseName kind size left attempt).run w).2 = w.withDb db' ∧
        SameFiles w.db db' := by
  induction left generalizing attempt w with
  | zero => exact ⟨w.db, rfl, .refl _⟩
  | succ left ih =>
    rw [Db.createConflictInode]
    obtain ⟨db', hstate, hsame⟩ := run_createInode (P := P) parentId
      (if attempt = 0 then baseName else Db.disambiguateConflictCopyName baseName attempt) kind size w
    have hattempt := Prog.run_attempt (γ := DbError) (Db.createInode (P := P) parentId
      (if attempt = 0 then baseName else Db.disambiguateConflictCopyName baseName attempt) kind size)
      w
    rw [Prog.run_bind_of_ok hattempt, hstate]
    rcases ((Db.createInode parentId (if attempt = 0 then baseName
      else Db.disambiguateConflictCopyName baseName attempt) kind size).run w).1 with e | inodeId
    · cases e with
      | uniqueViolation =>
        obtain ⟨db'', hstate', hsame'⟩ := ih (attempt + 1) (w.withDb db')
        refine ⟨db'', hstate', ?_⟩
        exact ⟨hsame'.fileRevisions.trans hsame.fileRevisions,
          hsame'.revisionSequence.trans hsame.revisionSequence,
          hsame'.chunkRefs.trans hsame.chunkRefs, hsame'.packs.trans hsame.packs,
          hsame'.packShards.trans hsame.packShards,
          hsame'.packLocations.trans hsame.packLocations, hsame'.packDeks.trans hsame.packDeks⟩
      | rowNotFound => exact ⟨db', rfl, hsame⟩
      | foreignKeyViolation => exact ⟨db', rfl, hsame⟩
      | unavailable => exact ⟨db', rfl, hsame⟩
      | invalidArgument m => exact ⟨db', rfl, hsame⟩
    · exact ⟨db', rfl, hsame⟩

/-- Copying references appends copies of them. -/
theorem copied_refs (toRevisionId : ℤ) (rows : List ChunkRefRecord) (db : FileDb) : ∃ rows',
    (rows.foldl (fun db r => Db.appendChunkRef toRevisionId r.chunkId r.fileOffset r.size db) db) =
        { db with
          chunkRefs := db.chunkRefs ++ rows'
          chunkRefSequence := db.chunkRefSequence + rows.length } ∧
      (∀ r ∈ rows', r.revisionId = toRevisionId) ∧
      List.Forall₂ (fun r r' : ChunkRefRecord => r'.chunkId = r.chunkId ∧
        r'.fileOffset = r.fileOffset ∧ r'.size = r.size) rows rows' := by
  induction rows generalizing db with
  | nil => exact ⟨[], by simp, by simp, .nil⟩
  | cons r rest ih =>
    obtain ⟨rows', hfold, hids, hcopy⟩ :=
      ih (Db.appendChunkRef toRevisionId r.chunkId r.fileOffset r.size db)
    refine ⟨{ id := db.chunkRefSequence + 1, revisionId := toRevisionId, chunkId := r.chunkId,
              fileOffset := r.fileOffset, size := r.size } :: rows', ?_, ?_,
      .cons ⟨rfl, rfl, rfl⟩ hcopy⟩
    · rw [List.foldl_cons, hfold]
      simp only [Db.appendChunkRef, List.append_assoc, List.cons_append, List.nil_append,
        List.length_cons, FileDb.mk.injEq, true_and, and_true]
      push_cast
      omega
    · intro r' hr'
      rcases List.mem_cons.mp hr' with hhead | htail
      · rw [hhead]
      · exact hids r' htail

/-- The rows that describe the packs. -/
theorem TablesInv.congr {db db' : FileDb} (h : TablesInv C chunks db) (hpacks : db'.packs = db.packs)
    (hlocations : db'.packLocations = db.packLocations) (hdeks : db'.packDeks = db.packDeks)
    (hshards : db'.packShards = db.packShards) : TablesInv C chunks db' :=
  ⟨hpacks ▸ h.packs, hlocations ▸ h.locations, hdeks ▸ h.bindings, hshards ▸ h.shards⟩

/-- A conflict copy leaves every revision described. -/
theorem run_materializeConflictCopy (sourceRevisionId : ℤ) (deviceId : Option String)
    (deviceName reason : String) {w : FileWorld P} (htables : TablesInv C chunks w.db)
    (hrevisions : RevisionsInv C chunks w.db) : ∃ db',
      ((Db.materializeConflictCopyFromRevision sourceRevisionId deviceId deviceName reason).run
        w).2 = w.withDb db' ∧ TablesInv C chunks db' ∧ RevisionsInv C chunks db' := by
  rw [Db.materializeConflictCopyFromRevision, run_selectFiles_bind]
  rcases hsource : w.db.fileRevisions.find? (·.revisionId = sourceRevisionId) with _ | source
  · rw [hsource]
    exact ⟨w.db, rfl, htables, hrevisions⟩
  rw [hsource, Prog.ofOption_some, Prog.ret_bind, Db.getInodeById, run_selectFiles_bind]
  rcases hinode : w.db.inodes.find? (·.id = source.inodeId) with _ | inode
  · rw [hinode]
    exact ⟨w.db, rfl, htables, hrevisions⟩
  rw [hinode, Prog.ofOption_some, Prog.ret_bind]
  obtain ⟨db₁, hstate, hsame⟩ := run_createConflictInode inode.parentId
    (Db.buildConflictCopyName inode.name deviceName source.createdAt) inode.kind source.size 16 0 w
  rcases hrun : (Db.createConflictInode inode.parentId
    (Db.buildConflictCopyName inode.name deviceName source.createdAt) inode.kind source.size 16
      0).run w with ⟨e | created, t⟩
  · rw [hrun] at hstate
    rw [Prog.run_bind_of_error hrun]
    exact ⟨db₁, hstate, hsame.tables htables, hsame.revisions hrevisions⟩
  rw [hrun] at hstate
  obtain rfl : t = w.withDb db₁ := hstate
  rw [Prog.run_bind_of_ok hrun]
  rcases created with _ | ⟨inodeId, name⟩
  · exact ⟨db₁, rfl, hsame.tables htables, hsame.revisions hrevisions⟩
  have htables₁ := hsame.tables htables
  have hrevisions₁ := hsame.revisions hrevisions
  have hmem : source ∈ db₁.fileRevisions := by
    rw [hsame.fileRevisions]
    exact List.mem_of_find?_eq_some hsource
  obtain ⟨cs, hcs, hfrom, hsize⟩ := hrevisions₁.described source hmem
  obtain ⟨db₂, hdb₂⟩ : ∃ db₂, db₂ = Db.appendRevision inodeId source.size source.immutableUntil
    deviceId (some source.revisionId) "conflict_copy" (some reason) w.now
      (Db.clearCurrent inodeId db₁) := ⟨_, rfl⟩
  obtain ⟨rows, hfold, hids, hcopy⟩ := copied_refs (db₁.revisionSequence + 1)
    (Db.refsOf source.revisionId db₂) db₂
  have hrefs : Db.refsOf source.revisionId db₂ = refRows source.revisionId db₁ := by
    rw [← refsOf_eq hfrom, hdb₂]
    rfl
  obtain ⟨db₃, hdb₃⟩ : ∃ db₃, db₃ = (Db.refsOf source.revisionId db₂).foldl (fun db r =>
      Db.appendChunkRef (db₁.revisionSequence + 1) r.chunkId r.fileOffset r.size db) db₂ :=
    ⟨_, rfl⟩
  refine ⟨Db.setConflictMaterialization (db₃.conflictSequence + 1) inodeId
    (db₁.revisionSequence + 1) (Db.appendConflictEvent source.inodeId source.revisionId
      (db₁.revisionSequence + 1) reason db₃), ?_, ?_, ?_⟩
  · rw [hdb₃, hdb₂]
    rfl
  · rw [hfold, hdb₂] at hdb₃
    rw [hdb₃]
    exact htables₁.congr rfl rfl rfl rfl
  · rw [hrefs] at hcopy
    rw [hfold, hdb₂] at hdb₃
    rw [hdb₃]
    exact hrevisions₁.add inodeId _ (fun _ hc => hc) hcs rfl rfl rfl rfl hids (hfrom.copy hcopy) hsize

/-! ## The parts before the new revision -/

/-- The keys and files do not depend on the file tables. -/
theorem FilesInv.withDb {w : FileWorld P} (h : FilesInv C known cur vaultKey all w) (db : FileDb) :
    FilesInv C known cur vaultKey all (w.withDb db) :=
  ⟨h.vault, h.drawn, h.distinct, h.known, h.deks, h.manifests, h.shards, h.objects, h.downloads⟩

/-- The lineage of two revisions is only looked up. -/
theorem run_classifyRevisionLineage (candidate current : ℤ) (w : FileWorld P) :
    ∃ relation, (Db.classifyRevisionLineage candidate current : FileProg P ε _).run w =
      (.ok relation, w) := by
  rw [Db.classifyRevisionLineage]
  split
  · exact ⟨_, rfl⟩
  · rw [Db.isRevisionAncestor, run_selectFiles_bind]
    split
    · exact ⟨_, rfl⟩
    · rw [Db.isRevisionAncestor, run_selectFiles_bind]
      split
      · exact ⟨_, rfl⟩
      · exact ⟨_, rfl⟩

/-- Finding the parent of the new revision keeps the tables in order. -/
theorem run_resolveParent (current : Option FileRevisionRecord) (deviceId : Option String)
    (deviceName : String) (expected : Option ℤ) {w : FileWorld P}
    (htables : TablesInv C chunks w.db) (hrevisions : RevisionsInv C chunks w.db) : ∃ db',
      ((resolveParent current deviceId deviceName expected).run w).2 = w.withDb db' ∧
        TablesInv C chunks db' ∧ RevisionsInv C chunks db' := by
  rcases expected with _ | expected
  · exact ⟨w.db, rfl, htables, hrevisions⟩
  rcases current with _ | current
  · exact ⟨w.db, rfl, htables, hrevisions⟩
  obtain ⟨relation, hlineage⟩ := run_classifyRevisionLineage (P := P) (ε := PackerError) expected
    current.revisionId w
  rw [resolveParent, Prog.run_bind_of_ok hlineage]
  rcases conflictReason relation with _ | reason
  · exact ⟨w.db, rfl, htables, hrevisions⟩
  obtain ⟨db', hstate, htables', hrevisions'⟩ := run_materializeConflictCopy current.revisionId
    deviceId deviceName reason htables hrevisions
  have hmap := Prog.run_mapError PackerError.db (Db.materializeConflictCopyFromRevision
    current.revisionId deviceId deviceName reason) w
  rw [hstate] at hmap
  refine ⟨db', ?_, htables', hrevisions'⟩
  rcases hresult : ((Db.materializeConflictCopyFromRevision current.revisionId deviceId deviceName
    reason).run w).1 with e | copy
  · rw [hresult] at hmap
    rw [Prog.run_bind_of_error hmap]
  · rw [hresult] at hmap
    rw [Prog.run_bind_of_ok hmap]
    rfl

/-- The part of the packer before the new revision keeps the store in order and returns the
prepared packs of the pieces of the file. -/
theorem run_preparePack (ideal : C.Ideal) {w : FileWorld P}
    (hstore : StoreInv C known cur vaultKey all chunks w) (config : PackerConfig) (inodeId : ℤ)
    {source : Bytes} (hknown : ∀ p ∈ piecesOf config.chunkSize source.length source, known p)
    (expected : Option ℤ) : ∃ all' t, ((preparePack C config inodeId source expected).run w).2 = t ∧
      (∀ c ∈ all, c ∈ all') ∧ FilesInv C known cur vaultKey all' t ∧ TablesInv C chunks t.db ∧
      RevisionsInv C chunks t.db ∧ w.vault.draws ≤ t.vault.draws ∧
      ∀ r, ((preparePack C config inodeId source expected).run w).1 = .ok r →
        ∃ items, r.1 = preparedFrom C 0 items ∧ ItemsInv (Db.storageModeOf inodeId w.db) chunks all
          all' (piecesOf config.chunkSize source.length source) items := by
  obtain ⟨all', hspooled, hprepared⟩ := run_prepareChunks ideal hstore.tables
    (fun c hc => (hstore.fits c hc).2) inodeId (Db.storageModeOf inodeId w.db) 0 hknown rfl
    hstore.files
  rw [preparePack, Db.getStorageModeForInode, run_selectFiles_bind]
  rcases hrun : (prepareChunks C inodeId (Db.storageModeOf inodeId w.db) 0
    (piecesOf config.chunkSize source.length source)).run w with ⟨e | prepared, t⟩
  · rw [hrun] at hspooled
    rw [Prog.run_bind_of_error hrun]
    refine ⟨all', t, rfl, hspooled.subset, hspooled.files, ?_, ?_, hspooled.draws,
      fun r h => by cases h⟩
    · rw [hspooled.db]
      exact hstore.tables
    · rw [hspooled.db]
      exact hstore.revisions
  rw [hrun] at hspooled hprepared
  obtain ⟨items, hitems, hinv⟩ := hprepared prepared rfl
  have hdevice : (onVault PackerError.vault Db.getLocalDeviceIdentity).run t =
      (.ok t.vault.db.localDeviceIdentity, t) := run_onVault _ _ t
  rw [Prog.run_bind_of_ok hrun, Prog.run_bind_of_ok hdevice, Db.getCurrentFileRevision,
    run_selectFiles_bind]
  have htables : TablesInv C chunks t.db := by
    rw [hspooled.db]
    exact hstore.tables
  have hrevisions : RevisionsInv C chunks t.db := by
    rw [hspooled.db]
    exact hstore.revisions
  obtain ⟨db', hstate, htables', hrevisions'⟩ := run_resolveParent
    (Db.currentRevision inodeId t.db) (t.vault.db.localDeviceIdentity.map (·.deviceId))
    ((t.vault.db.localDeviceIdentity.map (·.deviceName)).getD "Unknown Device") expected
    htables hrevisions
  rcases hparent : (resolveParent (Db.currentRevision inodeId t.db)
    (t.vault.db.localDeviceIdentity.map (·.deviceId))
    ((t.vault.db.localDeviceIdentity.map (·.deviceName)).getD "Unknown Device") expected).run t with
    ⟨e | parent, t'⟩
  · rw [hparent] at hstate
    obtain rfl : t' = t.withDb db' := hstate
    rw [Prog.run_bind_of_error hparent]
    exact ⟨all', _, rfl, hspooled.subset, hspooled.files.withDb db', htables', hrevisions',
      hspooled.draws, fun r h => by cases h⟩
  · rw [hparent] at hstate
    obtain rfl : t' = t.withDb db' := hstate
    rw [Prog.run_bind_of_ok hparent]
    refine ⟨all', _, rfl, hspooled.subset, hspooled.files.withDb db', htables', hrevisions',
      hspooled.draws, fun r h => ⟨items, ?_, hinv⟩⟩
    cases h
    exact hitems

/-! ## The whole packer -/

/-- The current revision of an inode refers to chunks of the packed bytes. -/
structure FilePacked (C : ChunkPrimitives P) (inodeId revisionId : ℤ) (source : Bytes)
    (cs : List StoredChunk) (db : FileDb) : Prop where
  current : ∃ fr ∈ db.fileRevisions, fr.revisionId = revisionId ∧ fr.inodeId = inodeId ∧
    fr.isCurrent = true
  only : ∀ fr ∈ db.fileRevisions, fr.inodeId = inodeId → fr.isCurrent = true →
    fr.revisionId = revisionId
  refs : RefsFrom C 0 cs (refRows revisionId db)
  bytes : (cs.map fun c => c.plaintext).flatten = source
  fits : source.length < 2 ^ 63

/-- The logical size of prepared packs is the length of their plaintexts. -/
theorem logicalSizeOf_preparedFrom (offset : ℤ) (items : List (StoredChunk × Bool)) :
    logicalSizeOf (preparedFrom C offset items) = plainSize (items.map Prod.fst) := by
  induction items generalizing offset with
  | nil => rfl
  | cons item rest ih =>
    have htail := ih (offset + item.1.plaintext.length)
    simp only [logicalSizeOf, plainSize, preparedFrom, List.map_cons, List.sum_cons] at htail ⊢
    rw [htail]
    rfl

/-- The plaintexts of the chunks are as long as the bytes they make up. -/
theorem plainSize_eq_length (cs : List StoredChunk) :
    plainSize cs = (cs.map fun c => c.plaintext).flatten.length := by
  rw [plainSize, List.length_flatten, List.map_map]
  rfl

/-- The chunks that are written are stored afterwards. -/
theorem mem_chunks_of_item {chunks : List StoredChunk} {items : List (StoredChunk × Bool)}
    (hreused : ∀ item ∈ items, item.2 = true → item.1 ∈ chunks) :
    ∀ c ∈ items.map Prod.fst, c ∈ chunks ++ newChunks items := by
  intro c hc
  obtain ⟨⟨c', reused⟩, hitem, heq⟩ := List.mem_map.mp hc
  cases reused with
  | true => exact List.mem_append_left _ (heq ▸ hreused _ hitem rfl)
  | false => exact List.mem_append_right _ (mem_newChunks.mpr (heq ▸ hitem))

/-- The row of a new revision. -/
def newRevision (inodeId size : ℤ) (deviceId : Option String) (parent : Option ℤ) (now : ℤ)
    (db : FileDb) : FileRevisionRecord :=
  { revisionId := db.revisionSequence + 1, inodeId, createdAt := now, size, isCurrent := true,
    immutableUntil := none, deviceId, parentRevisionId := parent, origin := "local_write",
    conflictReason := none }

/-- Writing the revision of prepared chunks keeps the store in order, and the revision is the
current one of its inode. -/
theorem StoreInv.write {n : ℕ} (ideal : C.Ideal) (hfree : C.CollisionFree n known) {w : FileWorld P}
    {all' : List StoredChunk} (hfiles : FilesInv C known cur vaultKey all' w)
    (hdraws : w.vault.draws ≤ n) (htables : TablesInv C chunks w.db)
    (hrevisions : RevisionsInv C chunks w.db) (hsub : ∀ c ∈ chunks, c ∈ all) (hnodup : chunks.Nodup)
    (hall : ∀ c ∈ all, c ∈ all')
    (hfits : ∀ c ∈ chunks, c.plaintext ≠ [] ∧ c.plaintext.length + 96 < 2 ^ 63)
    {mode : StorageMode} {source : Bytes} {plaintexts : List Bytes}
    (hflatten : plaintexts.flatten = source) (hpieces : ∀ p ∈ plaintexts, p ≠ [])
    {items : List (StoredChunk × Bool)} (hitems : ItemsInv mode chunks all all' plaintexts items)
    (hsize : source.length < 2 ^ 63) (inodeId : ℤ) (deviceId : Option String) (parent : Option ℤ) :
    (Db.createFileRevision inodeId source.length none deviceId parent "local_write" none >>=
        fun revisionId => writeChunks revisionId (preparedFrom C 0 items)).run w =
      (.ok (), w.withDb (chunksWritten C (w.db.revisionSequence + 1) 0 items
        (Db.appendRevision inodeId source.length none deviceId parent "local_write" none w.now
          (Db.clearCurrent inodeId w.db)))) ∧
    StoreInv C known cur vaultKey all' (chunks ++ newChunks items)
      (w.withDb (chunksWritten C (w.db.revisionSequence + 1) 0 items
        (Db.appendRevision inodeId source.length none deviceId parent "local_write" none w.now
          (Db.clearCurrent inodeId w.db)))) ∧
    FilePacked C inodeId (w.db.revisionSequence + 1) source (items.map Prod.fst)
      (chunksWritten C (w.db.revisionSequence + 1) 0 items
        (Db.appendRevision inodeId source.length none deviceId parent "local_write" none w.now
          (Db.clearCurrent inodeId w.db))) := by
  obtain ⟨db₁, hdb₁⟩ : ∃ db₁, db₁ = Db.appendRevision inodeId source.length none deviceId parent
    "local_write" none w.now (Db.clearCurrent inodeId w.db) := ⟨_, rfl⟩
  have hseparate : Separate C all' := separate_of_collisionFree ideal hfree hfiles.known
    (fun c hc => Nat.lt_of_lt_of_le (hfiles.drawn c hc) hdraws) hfiles.distinct
  have htables₁ : TablesInv C chunks db₁ := by
    rw [hdb₁]
    exact htables.congr rfl rfl rfl rfl
  have hwritable : Writable chunks all' items :=
    ⟨hitems.reused, fun item hi hnew => ⟨(hitems.new item hi hnew).1,
      fun hmem => (hitems.new item hi hnew).2.1 (hsub _ hmem)⟩, hitems.nodup⟩
  obtain ⟨hrun, htables₂⟩ := run_writeChunks (w := w) hseparate (w.db.revisionSequence + 1)
    (fun c hc => hall c (hsub c hc)) 0 htables₁ hwritable
  obtain ⟨hsame, rows, hrows, hfrom, hids⟩ := chunksWritten_refs (C := C)
    (w.db.revisionSequence + 1) 0 items db₁
  have hplain : (items.map Prod.fst).map (fun c => c.plaintext) = plaintexts := by
    rw [List.map_map]
    exact hitems.plaintexts
  have hplainSize : (source.length : ℤ) = plainSize (items.map Prod.fst) := by
    rw [plainSize_eq_length, hplain, hflatten]
  have hrefs₁ : db₁.chunkRefs = w.db.chunkRefs := by
    rw [hdb₁]
    rfl
  have hfileRevisions₁ : db₁.fileRevisions = (Db.clearCurrent inodeId w.db).fileRevisions ++
      [newRevision inodeId source.length deviceId parent w.now w.db] := by
    rw [hdb₁]
    rfl
  have hsequence₁ : db₁.revisionSequence = w.db.revisionSequence + 1 := by
    rw [hdb₁]
    rfl
  rw [← hdb₁]
  refine ⟨?_, ?_, ?_⟩
  · rw [← hrun, hdb₁]
    rfl
  · constructor
    · exact hfiles.withDb _
    · exact htables₂
    · apply hrevisions.add inodeId
        (newRevision inodeId source.length deviceId parent w.now w.db)
        (fun c hc => List.mem_append_left _ hc) (mem_chunks_of_item hitems.reused) _ rfl _ _ hids
        hfrom hplainSize
      · rw [FileWorld.db_withDb, hsame.fileRevisions, hfileRevisions₁]
      · rw [FileWorld.db_withDb, hsame.revisionSequence, hsequence₁]
      · rw [FileWorld.db_withDb, hrows, hrefs₁]
    · intro c hc
      rcases List.mem_append.mp hc with hold | hnew
      · exact hall c (hsub c hold)
      · exact (hwritable.new _ (mem_newChunks.mp hnew) rfl).1
    · rw [List.nodup_append]
      refine ⟨hnodup, hitems.nodup, fun c hold c' hnew heq => ?_⟩
      rw [heq] at hold
      exact (hwritable.new _ (mem_newChunks.mp hnew) rfl).2 hold
    · intro c hc
      rcases List.mem_append.mp hc with hold | hnew
      · exact hfits c hold
      · have hitem := mem_newChunks.mp hnew
        refine ⟨hpieces _ ?_, (hitems.new _ hitem rfl).2.2⟩
        rw [← hitems.plaintexts]
        exact List.mem_map.mpr ⟨_, hitem, rfl⟩
  · constructor
    · refine ⟨newRevision inodeId source.length deviceId parent w.now w.db, ?_, rfl, rfl, rfl⟩
      rw [hsame.fileRevisions, hfileRevisions₁]
      exact List.mem_append_right _ (List.mem_singleton_self _)
    · intro fr hfr hinode hcurrent
      rw [hsame.fileRevisions, hfileRevisions₁] at hfr
      rcases List.mem_append.mp hfr with hold | hnew
      · obtain ⟨old, -, heq⟩ := mem_updateWhere.mp hold
        by_cases hown : old.inodeId = inodeId
        · rw [if_pos (by simpa using hown)] at heq
          rw [← heq] at hcurrent
          cases hcurrent
        · rw [if_neg (by simpa using hown)] at heq
          rw [← heq] at hinode
          exact absurd hinode hown
      · rw [List.mem_singleton.mp hnew]
        rfl
    · have hnone : w.db.chunkRefs.filter (·.revisionId = w.db.revisionSequence + 1) = [] := by
        rw [List.filter_eq_nil_iff]
        intro cr hcr
        have hle := hrevisions.refIds cr hcr
        simp only [decide_eq_true_eq]
        omega
      have hown : rows.filter (·.revisionId = w.db.revisionSequence + 1) = rows := by
        rw [List.filter_eq_self]
        intro cr hcr
        simp only [decide_eq_true_eq]
        exact hids cr hcr
      rw [refRows, hrows, hrefs₁, List.filter_append, hnone, hown, List.nil_append]
      exact hfrom
    · rw [hplain, hflatten]
    · exact hsize

/-- A run of the packer keeps the store in order. Where it returns, the packed bytes are the
current revision of the inode. -/
theorem run_packFileWithExpectedParent {n : ℕ} (ideal : C.Ideal) (hfree : C.CollisionFree n known)
    {w : FileWorld P} (hstore : StoreInv C known cur vaultKey all chunks w) (config : PackerConfig)
    (inodeId : ℤ) {source : Bytes} (expected : Option ℤ)
    (hknown : ∀ p ∈ piecesOf config.chunkSize source.length source, known p)
    (hdraws : ((packFileWithExpectedParent C config inodeId source expected).run w).2.vault.draws ≤
      n) : ∃ all' chunks' t,
      ((packFileWithExpectedParent C config inodeId source expected).run w).2 = t ∧
      StoreInv C known cur vaultKey all' chunks' t ∧ w.vault.draws ≤ t.vault.draws ∧
      ∀ result, ((packFileWithExpectedParent C config inodeId source expected).run w).1 =
        .ok result → ∃ cs, (∀ c ∈ cs, c ∈ chunks') ∧
          FilePacked C inodeId result.revisionId source cs t.db := by
  obtain ⟨all', t, hstate, hall, hfiles, htables, hrevisions, hmono, hok⟩ :=
    run_preparePack ideal hstore config inodeId hknown expected
  have hkept : StoreInv C known cur vaultKey all' chunks t :=
    ⟨hfiles, htables, hrevisions, fun c hc => hall c (hstore.subset c hc), hstore.nodup,
      hstore.fits⟩
  rw [packFileWithExpectedParent] at hdraws ⊢
  rcases hrun : (preparePack C config inodeId source expected).run w with ⟨e | r, t'⟩
  · rw [hrun] at hstate
    obtain rfl : t' = t := hstate
    rw [Prog.run_bind_of_error hrun]
    exact ⟨all', chunks, t', rfl, hkept, hmono, fun result h => by cases h⟩
  rw [hrun] at hstate hok
  obtain rfl : t' = t := hstate
  obtain ⟨items, hprepared, hitems⟩ := hok r rfl
  obtain ⟨prepared, deviceId, parent, copyName⟩ := r
  obtain rfl : prepared = preparedFrom C 0 items := hprepared
  have hflatten := flatten_piecesOf config.chunkSize_pos (Nat.le_refl source.length)
  have hlogical : logicalSizeOf (preparedFrom C 0 items) = source.length := by
    have hplain : (items.map Prod.fst).map (fun c => c.plaintext) =
        piecesOf config.chunkSize source.length source := by
      rw [List.map_map]
      exact hitems.plaintexts
    rw [logicalSizeOf_preparedFrom, plainSize_eq_length, hplain, hflatten]
  rw [Prog.run_bind_of_ok hrun] at hdraws ⊢
  simp only [hlogical] at hdraws ⊢
  rcases hsize : toI64 source.length "logical size" with e | size
  · exact ⟨all', chunks, t', rfl, hkept, hmono, fun result h => by cases h⟩
  obtain ⟨rfl, hlt⟩ := toI64_eq_ok hsize
  rw [hsize, Prog.ofExcept_ok, Prog.ret_bind] at hdraws
  rw [Prog.ofExcept_ok, Prog.ret_bind]
  have hcreate : (Db.createFileRevision (P := P) (ε := PackerError) inodeId source.length none
      deviceId parent "local_write" none).run t' = (.ok (t'.db.revisionSequence + 1),
        t'.withDb (Db.appendRevision inodeId source.length none deviceId parent "local_write" none
          t'.now (Db.clearCurrent inodeId t'.db))) := rfl
  rw [Prog.run_bind_of_ok hcreate] at hdraws ⊢
  have hvault := (keeps_writeChunks (· = t'.vault) (t'.db.revisionSequence + 1)
    (preparedFrom C 0 items)).run (s := t'.withDb (Db.appendRevision inodeId source.length none
      deviceId parent "local_write" none t'.now (Db.clearCurrent inodeId t'.db))) rfl
  have hbound : t'.vault.draws ≤ n := by
    rcases hwrite : (writeChunks (t'.db.revisionSequence + 1) (preparedFrom C 0 items)).run
      (t'.withDb (Db.appendRevision inodeId source.length none deviceId parent "local_write" none
        t'.now (Db.clearCurrent inodeId t'.db))) with ⟨e | done, t₂⟩
    · rw [hwrite] at hvault
      rw [Prog.run_bind_of_error hwrite] at hdraws
      exact hvault ▸ hdraws
    · rw [hwrite] at hvault
      rw [Prog.run_bind_of_ok hwrite] at hdraws
      exact hvault ▸ hdraws
  obtain ⟨hwrite, hinv, hpacked⟩ := StoreInv.write ideal hfree hfiles hbound htables hrevisions
    hstore.subset hstore.nodup hall hstore.fits hflatten (fun p hp => ne_nil_of_mem_piecesOf hp)
    hitems hlt inodeId deviceId parent
  rw [Prog.run_bind_of_ok hcreate] at hwrite
  rw [Prog.run_bind_of_ok hwrite]
  refine ⟨all', chunks ++ newChunks items, _, rfl, hinv, hmono, fun result h => ?_⟩
  cases h
  exact ⟨items.map Prod.fst, mem_chunks_of_item hitems.reused, hpacked⟩

end OmniDrive
