import OmniDrive.Library.GuardedRuns
import OmniDrive.Storage.RoundTrip
import OmniDrive.Storage.Watcher

/-!
# What the watcher stores

Runs of the watcher in which a file with a revision is packed with versioning only, and in which no
failure falls between a new revision and its last chunk. Whatever the user, the lock of the vault
and the rest of the program do in between, nothing that was saved is lost.
-/

namespace OmniDrive

open StatementProgram GuardedRuns Tables ByteFields Packer History FileWatcher WatchRun

variable {P : Primitives} {C : ChunkPrimitives P} {known : Bytes → Prop} {cur vaultKey : P.Key}
  {keys : UnlockedVaultKeys P} {all chunks : List StoredChunk} {w w' : FileWorld P} {α : Type}

/-! ## Steps that carry the store -/

/-- The rows of inodes may change as long as none goes. -/
theorem History.Inv.withInodeIds {first : ℤ} {h : History} (hinv : h.Inv first)
    {inodeIds : List ℤ} {inodeSequence : ℤ} (hkeep : ∀ i ∈ h.inodeIds, i ∈ inodeIds)
    (hle : ∀ i ∈ inodeIds, i ≤ inodeSequence) :
    ({ h with inodeIds, inodeSequence } : History).Inv inodeSequence where
  start := le_rfl
  inodeIds := hle
  revisionIds := hinv.revisionIds
  nodup := hinv.nodup
  parents := hinv.parents
  inodes r hr := hkeep _ (hinv.inodes r hr)
  current := hinv.current
  only := hinv.only
  copies r hr hlt := absurd (hle _ (hkeep _ (hinv.inodes r hr))) (not_le.mpr hlt)
  refIds := hinv.refIds
  conflictIds := hinv.conflictIds

/-- A change of inodes, policies and the clock carries the store. -/
theorem Carried.edit (h : Carried C known cur vaultKey keys w w') (inodes : List InodeRecord)
    (inodeSequence : ℤ) (policyTypes : ℤ → Option String) (now : ℤ)
    (hkeep : ∀ i ∈ w'.db.inodes.map (·.id), i ∈ inodes.map (·.id))
    (hle : ∀ i ∈ inodes.map (·.id), i ≤ inodeSequence) :
    Carried C known cur vaultKey keys w
      { w' with db := { w'.db with inodes, inodeSequence, policyTypes }, now } where
  slot := h.slot
  store all chunks hstore := by
    obtain ⟨all', chunks', hsub, hstore'⟩ := h.store all chunks hstore
    exact ⟨all', chunks', hsub, hstore'.edit inodes inodeSequence policyTypes now⟩
  history := h.history.withInodeIds hkeep hle
  inodeIds i hi := hkeep i (h.inodeIds i hi)
  revisions := h.revisions
  refs := h.refs

/-- Locking and unlocking carry the store. -/
theorem Carried.setSlot (h : Carried C known cur vaultKey keys w w')
    {slot : Option (UnlockedVaultKeys P)} (hslot : slot = none ∨ slot = some keys) :
    Carried C known cur vaultKey keys w
      { w' with vault := { w'.vault with inner := slot } } :=
  ⟨hslot, h.store, h.history, h.inodeIds, h.revisions, h.refs⟩

/-- Promoting a revision changes flags only. -/
theorem StoreInv.setCurrent (h : StoreInv C known cur vaultKey all chunks w) (inodeId revisionId : ℤ) :
    StoreInv C known cur vaultKey all chunks
      (w.withDb (Db.setCurrent inodeId revisionId w.db)) where
  files := h.files.withDb _
  tables := h.tables.congr rfl rfl rfl rfl
  revisions := by
    have hflag : ∀ r ∈ (Db.setCurrent inodeId revisionId w.db).fileRevisions,
        ∃ old ∈ w.db.fileRevisions, old.revisionId = r.revisionId ∧ old.size = r.size := by
      intro r hr
      obtain ⟨mid, hmid, rfl⟩ := mem_updateWhere.mp hr
      obtain ⟨old, hold, rfl⟩ := mem_updateWhere.mp hmid
      refine ⟨old, hold, ?_⟩
      split <;> split <;> exact ⟨rfl, rfl⟩
    have hids : (Db.setCurrent inodeId revisionId w.db).fileRevisions.map (·.revisionId) =
        w.db.fileRevisions.map (·.revisionId) := by
      have houter : (Db.setCurrent inodeId revisionId w.db).fileRevisions.map (·.revisionId) =
          (Db.clearCurrent inodeId w.db).fileRevisions.map (·.revisionId) := by
        apply map_updateWhere
        intro r
        rfl
      exact houter.trans (keys_cleared inodeId w.db.fileRevisions)
    constructor
    · intro r hr
      obtain ⟨old, hold, hid, -⟩ := hflag r hr
      exact hid ▸ h.revisions.revisionIds old hold
    · exact h.revisions.refIds
    · rw [FileWorld.db_withDb, hids]
      exact h.revisions.nodup
    · intro r hr
      obtain ⟨old, hold, hid, hsize⟩ := hflag r hr
      obtain ⟨cs, hcs, hrefs, holdSize⟩ := h.revisions.described old hold
      refine ⟨cs, hcs, ?_, hsize ▸ holdSize⟩
      rw [← hid]
      exact hrefs
  subset := h.subset
  nodup := h.nodup
  fits := h.fits

/-- Promoting a revision carries the store. -/
theorem Intact.promote (h : Intact C known cur vaultKey keys w) (revisionId : ℤ) :
    Carried C known cur vaultKey keys w ((Db.promoteRevisionToCurrent revisionId).run w).2 := by
  obtain ⟨hinv, -⟩ := run_promote_history h.history revisionId rfl
  rw [Db.promoteRevisionToCurrent, Prog.run_execReturning_bind] at hinv ⊢
  cases hfind : w.db.fileRevisions.find? (·.revisionId = revisionId) with
  | none => exact h.carried
  | some r =>
    rw [hfind] at hinv
    refine ⟨h.slot, fun all chunks hstore => ⟨all, chunks, fun _ hc => hc, ?_⟩, hinv.rebase,
      fun _ hi => hi, fun old hold => ?_, fun _ _ => rfl⟩
    · exact hstore.setCurrent r.inodeId revisionId
    · obtain ⟨mid, hmid, hsame⟩ := exists_cleared hold r.inodeId
      refine ⟨_, mem_updateWhere.mpr ⟨mid, hmid, rfl⟩, ?_⟩
      split
      · exact hsame.trans ⟨rfl, rfl, rfl⟩
      · exact hsame

/-! ## The inodes of a path -/

theorem Carried.inodeIds_le (h : Carried C known cur vaultKey keys w w') :
    ∀ i ∈ w'.db.inodes.map (·.id), i ≤ w'.db.inodeSequence := h.history.inodeIds

theorem ids_setSize (inodeId size : ℤ) (mtime : Option ℤ) (db : FileDb) :
    (Db.setSize inodeId size mtime db).inodes.map (·.id) = db.inodes.map (·.id) := by
  apply map_updateWhere
  intro i
  rfl

/-- Finding or creating an inode carries the store. -/
theorem keeps_carried_upsertInode (parentId : Option ℤ) (name kind : String) (size : ℤ)
    (mtime : Option ℤ) : (Db.upsertInode parentId name kind size mtime).Keeps
      (Carried C known cur vaultKey keys w) := by
  apply (Prog.Keeps.ofExcept _).bind
  intro _
  apply (Prog.Keeps.query _).bind
  intro existing
  cases existing with
  | some existing =>
    dsimp only
    split
    · trivial
    · apply Prog.Keeps.bind
      · apply Prog.Keeps.exec
        intro w' h
        have hids := ids_setSize existing.id size mtime w'.db
        exact h.edit (Db.setSize existing.id size mtime w'.db).inodes w'.db.inodeSequence
          w'.db.policyTypes w'.now (fun i hi => hids ▸ hi) fun i hi => h.inodeIds_le i (hids ▸ hi)
      · exact fun _ => trivial
  | none =>
    apply Prog.Keeps.bind
    · apply Prog.Keeps.execReturning
      intro w' h
      split
      · exact h
      · refine h.edit (Db.appendInodeAt parentId name kind size mtime w'.db).inodes
          (w'.db.inodeSequence + 1) w'.db.policyTypes w'.now (fun i hi => ?_) fun i hi => ?_
        · rw [Db.appendInodeAt, List.map_append]
          exact List.mem_append_left _ hi
        · rw [Db.appendInodeAt, List.map_append] at hi
          rcases List.mem_append.mp hi with hold | hnew
          · exact (h.inodeIds_le i hold).trans (Int.le_add_one le_rfl)
          · exact (List.mem_singleton.mp hnew).le
    · exact fun _ => Prog.Keeps.ofOption _ _

/-- The inode that is found or created is there. -/
theorem mem_of_run_upsertInode {parentId : Option ℤ} {name kind : String} {size : ℤ}
    {mtime : Option ℤ} {inodeId : ℤ}
    (h : (Db.upsertInode parentId name kind size mtime).run w = (.ok inodeId, w')) :
    inodeId ∈ w'.db.inodes.map (·.id) := by
  rw [Db.upsertInode] at h
  obtain ⟨_, -, h⟩ := Prog.run_ofExcept_bind_ok h
  rw [Db.getInodeByPath, run_selectFiles_bind] at h
  rcases hfound : Db.inodeByPath parentId name w.db with _ | existing
  · rw [hfound] at h
    dsimp only at h
    rw [Db.insertInode, Prog.run_execReturning_bind] at h
    split at h
    · cases h
    · cases h
      rw [Db.appendInodeAt, List.map_append]
      exact List.mem_append_right _ (List.mem_singleton_self _)
  · rw [hfound] at h
    dsimp only at h
    split at h
    · cases h
    · cases h
      have hids := ids_setSize existing.id size mtime w.db
      exact hids ▸ List.mem_map_of_mem (List.mem_of_find?_eq_some hfound)

/-- So does finding or creating all inodes of a path. -/
theorem keeps_carried_ensureSegments (fileSize : ℤ) (fileMtime : Option ℤ) (parentId : Option ℤ)
    (names : List String) : (ensureSegments fileSize fileMtime parentId names).Keeps
      (Carried C known cur vaultKey keys w) := by
  induction names generalizing parentId with
  | nil => exact Prog.Keeps.ofOption _ _
  | cons name rest ih =>
    apply (keeps_carried_upsertInode _ _ _ _ _).mapError.bind
    exact fun inodeId => ih (some inodeId)

theorem mem_of_run_ensureSegments {fileSize : ℤ} {fileMtime : Option ℤ} {parentId : Option ℤ}
    {names : List String} {inodeId : ℤ}
    (hparent : ∀ i ∈ parentId, i ∈ w.db.inodes.map (·.id))
    (h : (ensureSegments fileSize fileMtime parentId names).run w = (.ok inodeId, w')) :
    inodeId ∈ w'.db.inodes.map (·.id) := by
  induction names generalizing parentId w with
  | nil =>
    cases parentId with
    | none => cases h
    | some i =>
      cases h
      exact hparent _ rfl
  | cons name rest ih =>
    obtain ⟨i, u, hupsert, hrest⟩ := Prog.run_bind_ok h
    rw [Prog.run_mapError] at hupsert
    rcases hrun : (Db.upsertInode parentId name (if rest.isEmpty then "FILE" else "DIR")
      (if rest.isEmpty then fileSize else 0) (if rest.isEmpty then fileMtime else none)).run w with
      ⟨e | i', u'⟩
    · rw [hrun] at hupsert
      cases hupsert
    · rw [hrun] at hupsert
      cases hupsert
      refine ih (fun j hj => ?_) hrest
      rw [← Option.some.inj hj]
      exact mem_of_run_upsertInode hrun

/-! ## Looking at a file -/

/-- The revision is there. -/
def HasRevision (db : FileDb) (revisionId : ℤ) : Prop :=
  ∃ r ∈ db.fileRevisions, r.revisionId = revisionId

theorem Carried.hasRevision (h : Carried C known cur vaultKey keys w w') {revisionId : ℤ}
    (hrow : HasRevision w.db revisionId) : HasRevision w'.db revisionId := by
  obtain ⟨r, hr, rfl⟩ := hrow
  obtain ⟨r', hr', hsame⟩ := h.revisions r hr
  exact ⟨r', hr', hsame.1⟩

/-- The files of the user are the same, and new entries of the map have bases that were there. -/
structure Beside (s st : WatchState P) : Prop where
  disk : st.disk = s.disk
  tracked : ∀ path e, st.processedFiles path = some e →
    s.processedFiles path = some e ∨ ∀ r ∈ e.baseRevisionId, HasRevision s.files.db r

theorem Beside.refl (s : WatchState P) : Beside s s := ⟨rfl, fun _ _ he => .inl he⟩

theorem Beside.update {s st : WatchState P} (h : Beside s st) {path : WatchPath}
    {entry : Option TrackedFileState}
    (hentry : ∀ e ∈ entry, ∀ r ∈ e.baseRevisionId, HasRevision s.files.db r) :
    Beside s { st with processedFiles := Function.update st.processedFiles path entry } := by
  refine ⟨h.disk, fun path' e he => ?_⟩
  by_cases hpath : path' = path
  · have hself : entry = some e := by
      rw [hpath] at he
      simpa using he
    exact .inr (hentry e hself)
  · have hother : st.processedFiles path' = some e := by simpa [hpath] using he
    exact h.tracked path' e hother

theorem keeps_onStore {ε : Type} {I : FileWorld P → Prop} (s : WatchState P)
    (toError : ε → WatcherError) {p : FileProg P ε α} (h : p.Keeps I) :
    (onStore toError p).Keeps fun st => I st.files ∧ Beside s st := by
  have hfiles : (onStore toError p).Keeps fun st => I st.files :=
    Prog.Keeps.zoom (fun _ _ => rfl) h.mapError
  have hbeside : (onStore toError p).Keeps fun st => Beside s st :=
    Prog.keeps_zoom_of_frame (fun _ _ hst => ⟨hst.disk, hst.tracked⟩) _
  exact hfiles.and hbeside

theorem keeps_inspectFile (s : WatchState P) (watcher : FileWatcher) (path : WatchPath) :
    (watcher.inspectFile path).Keeps fun st =>
      Carried C known cur vaultKey keys w st.files ∧ Beside s st := by
  rw [inspectFile]
  split
  · trivial
  apply (Prog.Keeps.query _).bind
  intro entry
  rcases entry with _ | file | _
  · trivial
  · apply (Prog.Keeps.ofExcept _).bind
    intro policyPath
    apply (Prog.Keeps.query _).bind
    intro policy
    apply (Prog.Keeps.ofOption _ _).bind
    intro policy
    apply (Prog.Keeps.ofExcept _).bind
    intro fileSize
    apply (keeps_onStore s id (keeps_carried_ensureSegments _ _ _ _)).bind
    intro inodeId
    apply (keeps_onStore s WatcherError.db (Prog.Keeps.query _)).bind
    intro current
    apply (Prog.Keeps.query _).bind
    intro previous
    split <;> trivial
  · trivial

/-- What a look at the metadata returns. -/
structure Looked (s : WatchState P) (path : WatchPath) (size : ℕ) (mtime : Option ℤ)
    (r : Option Inspected) (st : WatchState P) : Prop where
  found : ∃ dbPath policy fileSize inodeId files, pathToPolicyKey path = .ok dbPath ∧
    (ensureInodePathFromDbPath dbPath fileSize mtime).run s.files = (.ok inodeId, files) ∧
    st = { s with files } ∧
    r = if metadataUnchanged (s.processedFiles path) size mtime
        (Db.currentRevision inodeId files.db) then none
      else some { path, size, mtime, policy, inodeId, current := Db.currentRevision inodeId files.db,
                  previous := s.processedFiles path }

theorem looked_of_run {s st : WatchState P} {path : WatchPath} {size : ℕ} {mtime : Option ℤ}
    {r : Option Inspected} (h : (inspectMetadata path size mtime).run s = (.ok r, st)) :
    Looked s path size mtime r st := by
  rw [inspectMetadata] at h
  obtain ⟨dbPath, hkey, h⟩ := Prog.run_ofExcept_bind_ok h
  rw [Prog.run_query_bind] at h
  obtain ⟨policy, -, h⟩ := Prog.run_ofOption_bind_ok h
  obtain ⟨fileSize, -, h⟩ := Prog.run_ofExcept_bind_ok h
  obtain ⟨inodeId, u, hensure, h⟩ := Prog.run_bind_ok h
  rw [run_onStore] at hensure
  rcases hrun : (ensureInodePathFromDbPath dbPath fileSize mtime).run s.files with ⟨e | i, files⟩
  · rw [hrun] at hensure
    cases hensure
  rw [hrun] at hensure
  cases hensure
  refine ⟨dbPath, policy, fileSize, inodeId, files, hkey, hrun, ?_⟩
  have hcurrent : (onStore WatcherError.db (Db.getCurrentFileRevision inodeId)).run
      { s with files } = (.ok (Db.currentRevision inodeId files.db), { s with files }) :=
    run_onStore _ _ _
  rw [Prog.run_bind_of_ok hcurrent, Prog.run_query_bind] at h
  dsimp only at h
  split at h
  · rename_i hsame
    cases h
    rw [if_pos hsame]
    exact ⟨rfl, rfl⟩
  · rename_i hdiff
    cases h
    rw [if_neg hdiff]
    exact ⟨rfl, rfl⟩

/-- What a look at a path returns. -/
theorem inspected_of_run {watcher : FileWatcher} {s st : WatchState P} {path : WatchPath}
    {r : Option Inspected} (h : (watcher.inspectFile path).run s = (.ok r, st)) :
    (r = none ∧ st = s ∧
        (watcher.shouldIgnorePath path = true ∨ s.disk path = some .directory)) ∨
      watcher.shouldIgnorePath path = false ∧ ∃ file, s.disk path = some (.file file) ∧
        Looked s path file.bytes.length file.mtime r st := by
  rw [inspectFile] at h
  split at h
  · rename_i hignored
    cases h
    exact .inl ⟨rfl, rfl, .inl hignored⟩
  · rename_i hignored
    rw [Prog.run_query_bind] at h
    rcases hentry : s.disk path with _ | file | _
    · rw [hentry] at h
      cases h
    · rw [hentry] at h
      exact .inr ⟨by simpa using hignored, file, rfl, looked_of_run h⟩
    · rw [hentry] at h
      cases h
      exact .inl ⟨rfl, rfl, .inr rfl⟩

/-! ## A deleted file and a hashed one -/

theorem ids_softDelete (inodeId nowMs : ℤ) (db : FileDb) :
    (Trash.softDeleteInode inodeId nowMs db).inodes.map (·.id) = db.inodes.map (·.id) := by
  apply map_updateWhere
  intro i
  rfl

theorem Carried.softDelete (h : Carried C known cur vaultKey keys w w') (inodeId : ℤ) :
    Carried C known cur vaultKey keys w
      { w' with db := Trash.softDeleteInode inodeId w'.now w'.db } := by
  have hids := ids_softDelete inodeId w'.now w'.db
  exact h.edit (Trash.softDeleteInode inodeId w'.now w'.db).inodes w'.db.inodeSequence
    w'.db.policyTypes w'.now (fun i hi => hids ▸ hi) fun i hi => h.inodeIds_le i (hids ▸ hi)

theorem keeps_resolvePath {I : FileWorld P → Prop} (path : String) :
    (Db.resolvePath path).Keeps I := by
  have hsegments : ∀ (names : List String) (parentId : Option ℤ),
      (Db.resolveSegments parentId names).Keeps I := by
    intro names
    induction names with
    | nil => exact fun _ => trivial
    | cons name rest ih =>
      intro parentId
      apply (Prog.Keeps.query _).bind
      intro inode
      cases inode with
      | none => trivial
      | some inode => exact ih (some inode.id)
  rw [Db.resolvePath]
  split
  · trivial
  · exact hsegments _ _

theorem keeps_untrack (s : WatchState P) (path : WatchPath) :
    (untrack path).Keeps fun st =>
      Carried C known cur vaultKey keys w st.files ∧ Beside s st := by
  apply Prog.Keeps.exec
  intro st h
  have hnone : ∀ e ∈ (none : Option TrackedFileState), ∀ r ∈ e.baseRevisionId,
      HasRevision s.files.db r := by simp
  exact ⟨h.1, h.2.update hnone⟩

theorem keeps_handleDeletedPath (s : WatchState P) (path : WatchPath) :
    (handleDeletedPath path).Keeps fun st =>
      Carried C known cur vaultKey keys w st.files ∧ Beside s st := by
  rw [handleDeletedPath]
  apply (keeps_untrack s path).bind
  intro _
  apply (Prog.Keeps.ofExcept _).bind
  intro dbPath
  have hresolve : (Db.resolvePath dbPath).Keeps (Carried C known cur vaultKey keys w) :=
    keeps_resolvePath dbPath
  apply (keeps_onStore s WatcherError.db hresolve).bind
  intro inodeId
  cases inodeId with
  | none => trivial
  | some inodeId =>
    apply (keeps_onStore s WatcherError.db (Prog.Keeps.query _)).bind
    intro inode
    cases inode with
    | none => trivial
    | some inode =>
      dsimp only
      split
      · trivial
      · apply Prog.Keeps.exec
        intro st h
        exact ⟨h.1.softDelete inodeId, h.2.disk, h.2.tracked⟩

theorem keeps_readFile {I : WatchState P → Prop} (path : WatchPath) :
    (readFile path : WatchProg P Bytes).Keeps I := by
  apply (Prog.Keeps.query _).bind
  intro entry
  rcases entry with _ | file | _ <;> trivial

/-- Hashing a file may give its entry the base of before. -/
theorem keeps_hashFile (s : WatchState P) {x : Inspected}
    (hbase : ∀ r ∈ expectedParent x, HasRevision s.files.db r) :
    (hashFile C x).Keeps fun st =>
      Carried C known cur vaultKey keys w st.files ∧ Beside s st := by
  apply (keeps_readFile _).bind
  intro bytes
  cases hprevious : x.previous with
  | none => trivial
  | some prev =>
    dsimp only
    split
    · apply Prog.Keeps.bind
      · refine Prog.Keeps.exec fun _ h => ⟨h.1, h.2.update fun e he r hr => hbase r ?_⟩
        obtain rfl := Option.some.inj he
        have hprev : prev.baseRevisionId = some r := hr
        rw [expectedParent, hprevious, Option.bind_some, hprev]
        rfl
      · exact fun _ => trivial
    · trivial

/-! ## The invariant -/

/-- The file a call waits with. -/
def WatchStage.inspected : WatchStage → Option Inspected
  | .idle => none
  | .hashing x => some x
  | .packing x _ => some x

/-- The inode and the expected parent of a waiting call are there. -/
def Awaited (w : FileWorld P) (x : Inspected) : Prop :=
  x.inodeId ∈ (historyOf w.db).inodeIds ∧ ∀ r ∈ expectedParent x, HasRevision w.db r

theorem Carried.awaited (h : Carried C known cur vaultKey keys w w') {x : Inspected}
    (hx : Awaited w x) : Awaited w' x :=
  ⟨h.inodeIds _ hx.1, fun r hr => h.hasRevision (hx.2 r hr)⟩

/-- Whatever the watcher reads is packed in known pieces. -/
def PiecesKnown (known : Bytes → Prop) (watcher : FileWatcher) (bytes : Bytes) : Prop :=
  ∀ p ∈ piecesOf watcher.packer.chunkSize bytes.length bytes, known p

/-- What runs of the watcher keep. -/
structure WatchInv (C : ChunkPrimitives P) (known : Bytes → Prop) (cur vaultKey : P.Key)
    (keys : UnlockedVaultKeys P) (watcher : FileWatcher) (n : ℕ) (s : WatchRun P) : Prop where
  intact : Intact C known cur vaultKey keys s.files
  draws : s.files.vault.draws ≤ n
  pieces : ∀ path bytes, bytesAt path s.toWatchState = some bytes →
    PiecesKnown known watcher bytes
  tracked : ∀ path e, s.processedFiles path = some e →
    ∀ r ∈ e.baseRevisionId, HasRevision s.files.db r
  waiting : ∀ x ∈ s.stage.inspected, Awaited s.files x
  written : ∀ v ∈ s.written, Stores C known cur vaultKey keys v.1 v.2 s.files

/-- A step carries the store and keeps the invariant. -/
structure Advanced (C : ChunkPrimitives P) (known : Bytes → Prop) (cur vaultKey : P.Key)
    (keys : UnlockedVaultKeys P) (watcher : FileWatcher) (n : ℕ) (s s' : WatchRun P) : Prop where
  carried : Carried C known cur vaultKey keys s.files s'.files
  inv : WatchInv C known cur vaultKey keys watcher n s'

section Steps

variable {watcher : FileWatcher} {n : ℕ} {s : WatchRun P}

theorem keeps_runUntil {I : WatchState P → Prop} {p : WatchProg P α} (hp : p.Keeps I)
    {st : WatchState P} (hst : I st) (fault : Fault) : I (runUntil fault p st).2 := by
  cases fault with
  | none => exact hp.run hst
  | some f => exact hp.cut f.1 hst

/-- A step that carries the store, leaves the files of the user alone and tracks revisions that are
there keeps the invariant. -/
theorem WatchInv.moved (h : WatchInv C known cur vaultKey keys watcher n s) (st : WatchState P)
    (hcarried : Carried C known cur vaultKey keys s.files st.files)
    (hdisk : st.disk = s.disk)
    (htracked : ∀ path e, st.processedFiles path = some e → s.processedFiles path = some e ∨
      ∀ r ∈ e.baseRevisionId, HasRevision st.files.db r)
    (hdraws : st.files.vault.draws ≤ n) {stage : WatchStage}
    (hstage : ∀ x ∈ stage.inspected, Awaited st.files x)
    (outcome : Option (Except WatcherError Unit)) {written : List (ℤ × Bytes)}
    (hwritten : ∀ v ∈ written, v ∈ s.written ∨
      Stores C known cur vaultKey keys v.1 v.2 st.files) :
    Advanced C known cur vaultKey keys watcher n s
      { toWatchState := st, stage, outcome, written } where
  carried := hcarried
  inv := by
    refine ⟨hcarried.intact h.intact, hdraws, fun path bytes hbytes => ?_, fun path e he => ?_,
      hstage, fun v hv => ?_⟩
    · apply h.pieces path bytes
      rw [← hbytes, bytesAt, bytesAt]
      dsimp only
      rw [hdisk]
    · rcases htracked path e he with hold | hnew
      · exact fun r hr => hcarried.hasRevision (h.tracked path e hold r hr)
      · exact hnew
    · rcases hwritten v hv with hold | hnew
      · exact hcarried.stores (h.written v hold)
      · exact hnew

/-- So does a part of a call, whether the call ends there or waits. -/
theorem WatchInv.beside (h : WatchInv C known cur vaultKey keys watcher n s) {st : WatchState P}
    (hst : Carried C known cur vaultKey keys s.files st.files ∧ Beside s.toWatchState st)
    (hdraws : st.files.vault.draws ≤ n) {stage : WatchStage}
    (hstage : ∀ x ∈ stage.inspected, Awaited st.files x)
    (outcome : Option (Except WatcherError Unit)) :
    Advanced C known cur vaultKey keys watcher n s
      { s with toWatchState := st, stage, outcome } := by
  apply h.moved st hst.1 hst.2.disk _ hdraws hstage outcome fun _ hv => .inl hv
  intro path e he
  rcases hst.2.tracked path e he with hold | hbase
  · exact .inl hold
  · exact .inr fun r hr => hst.1.hasRevision (hbase r hr)

theorem WatchInv.ended (h : WatchInv C known cur vaultKey keys watcher n s) {st : WatchState P}
    (hst : Carried C known cur vaultKey keys s.files st.files ∧ Beside s.toWatchState st)
    (hdraws : st.files.vault.draws ≤ n) (out : Except WatcherError Unit) :
    Advanced C known cur vaultKey keys watcher n s (s.finish out st) :=
  h.beside hst hdraws (fun _ hx => by cases hx) _

theorem WatchInv.onDeleted (h : WatchInv C known cur vaultKey keys watcher n s) (path : WatchPath)
    (fault : Fault) (hdraws : (s.onDeleted path fault).files.vault.draws ≤ n) :
    Advanced C known cur vaultKey keys watcher n s (s.onDeleted path fault) :=
  h.ended (keeps_runUntil (keeps_handleDeletedPath s.toWatchState path)
    ⟨h.intact.carried, .refl _⟩ fault) hdraws _

theorem mem_currentRevision {db : FileDb} {inodeId : ℤ} {r : FileRevisionRecord}
    (h : Db.currentRevision inodeId db = some r) : r ∈ db.fileRevisions := by
  have hmem := List.mem_of_mem_head? (Option.mem_def.mpr h)
  rw [Tables.mem_orderBy] at hmem
  exact (List.mem_filter.mp hmem).1

/-- A file that was looked at can be packed. -/
theorem awaited_of_looked {path : WatchPath} {size : ℕ} {mtime : Option ℤ} {x : Inspected}
    {s st : WatchState P} (hcarried : Carried C known cur vaultKey keys s.files st.files)
    (htracked : ∀ path e, s.processedFiles path = some e →
      ∀ r ∈ e.baseRevisionId, HasRevision s.files.db r)
    (h : Looked s path size mtime (some x) st) : Awaited st.files x := by
  obtain ⟨dbPath, policy, fileSize, inodeId, files, hkey, hensure, rfl, hx⟩ := h.found
  split at hx
  · cases hx
  · obtain rfl := Option.some.inj hx
    constructor
    · exact mem_of_run_ensureSegments (by simp) hensure
    · intro r hr
      rcases Option.or_eq_some_iff.mp hr with hprevious | ⟨-, hcurrent⟩
      · obtain ⟨e, he, hbase⟩ := Option.bind_eq_some_iff.mp hprevious
        exact hcarried.hasRevision (htracked path e he r hbase)
      · obtain ⟨row, hrow, rfl⟩ := Option.map_eq_some_iff.mp hcurrent
        exact ⟨row, mem_currentRevision hrow, rfl⟩

theorem WatchInv.onInspect (h : WatchInv C known cur vaultKey keys watcher n s) (path : WatchPath)
    (fault : Fault) (hdraws : (s.onInspect watcher path fault).files.vault.draws ≤ n) :
    Advanced C known cur vaultKey keys watcher n s (s.onInspect watcher path fault) := by
  have hkeep : (watcher.inspectFile path).Keeps fun st =>
      Carried C known cur vaultKey keys s.files st.files ∧ Beside s.toWatchState st :=
    keeps_inspectFile s.toWatchState watcher path
  have hst := keeps_runUntil hkeep ⟨h.intact.carried, .refl _⟩ fault
  rw [WatchRun.onInspect] at hdraws ⊢
  rcases hrun : runUntil fault (watcher.inspectFile path) s.toWatchState with ⟨out, st⟩
  rw [hrun] at hdraws hst
  rcases out with e | _ | x
  · exact h.ended hst hdraws _
  · exact h.ended hst hdraws _
  · apply h.beside hst hdraws _ s.outcome
    intro x' hx'
    obtain rfl : x = x' := Option.some.inj hx'
    cases fault with
    | none =>
      rcases inspected_of_run hrun with ⟨hnone, -⟩ | ⟨-, file, -, hlooked⟩
      · cases hnone
      · exact awaited_of_looked hst.1 h.tracked hlooked
    | some f => cases hrun

theorem WatchInv.onHash (h : WatchInv C known cur vaultKey keys watcher n s) {x : Inspected}
    (hx : Awaited s.files x) (fault : Fault) (hdraws : (s.onHash C x fault).files.vault.draws ≤ n) :
    Advanced C known cur vaultKey keys watcher n s (s.onHash C x fault) := by
  have hkeep : (hashFile C x).Keeps fun st =>
      Carried C known cur vaultKey keys s.files st.files ∧ Beside s.toWatchState st :=
    keeps_hashFile s.toWatchState hx.2
  have hst := keeps_runUntil hkeep ⟨h.intact.carried, .refl _⟩ fault
  rw [WatchRun.onHash] at hdraws ⊢
  rcases hrun : runUntil fault (hashFile C x) s.toWatchState with ⟨out, st⟩
  rw [hrun] at hdraws hst
  rcases out with e | _ | contentHash
  · exact h.ended hst hdraws _
  · exact h.ended hst hdraws _
  · apply h.beside hst hdraws _ s.outcome
    intro x' hx'
    obtain rfl : x = x' := Option.some.inj hx'
    exact hst.1.awaited hx

/-! ## Packing -/

theorem run_readFile (path : WatchPath) (s : WatchState P) :
    (readFile path : WatchProg P Bytes).run s =
      ((bytesAt path s).elim (.error .io) .ok, s) := by
  rw [readFile, Prog.run_query_bind, bytesAt]
  rcases s.disk path with _ | file | _ <;> rfl

/-- The file is versioned or new. -/
def KeepsOld (x : Inspected) : Prop := x.policy.enableVersioning ≠ 0 ∨ x.current = none

theorem dropOldRevisions_of_keepsOld {x : Inspected} (h : KeepsOld x) :
    (dropOldRevisions x : WatchProg P Unit) = pure () := by
  rw [dropOldRevisions, if_neg]
  intro hdrop
  rcases h with hversioned | hnew
  · exact hversioned hdrop.1
  · rw [hnew] at hdrop
    exact absurd hdrop.2 (by simp)

/-- A packing that finds no file. -/
theorem run_packAndTrack_missing {x : Inspected} (hkeep : KeepsOld x) (contentHash : String)
    {s : WatchState P} (hbytes : bytesAt x.path s = none) :
    (watcher.packAndTrack C x contentHash).run s = (.error .io, s) := by
  have hread : (readFile x.path : WatchProg P Bytes).run s = (.error .io, s) := by
    rw [run_readFile, hbytes]
    rfl
  rw [packAndTrack, dropOldRevisions_of_keepsOld hkeep]
  exact (Prog.run_bind_of_error hread :)

theorem cut_packAndTrack_missing {x : Inspected} (hkeep : KeepsOld x) (contentHash : String)
    {s : WatchState P} (hbytes : bytesAt x.path s = none) (m : ℕ) :
    (watcher.packAndTrack C x contentHash).cut m s = s := by
  have hread : (readFile x.path : WatchProg P Bytes).run s = (.error .io, s) := by
    rw [run_readFile, hbytes]
    rfl
  have hcut : (readFile x.path : WatchProg P Bytes).cut m s = s :=
    (keeps_readFile (I := fun st => st = s) x.path).cut m rfl
  rw [packAndTrack, dropOldRevisions_of_keepsOld hkeep]
  exact (Prog.cut_bind_of_error hread).trans hcut

/-- A packing of a file. -/
theorem run_packAndTrack {x : Inspected} (hkeep : KeepsOld x) (contentHash : String)
    {s : WatchState P} {bytes : Bytes} (hbytes : bytesAt x.path s = some bytes)
    {out : Except PackerError PackResult} {files : FileWorld P}
    (hsave : (saveFile C watcher.packer x.inodeId bytes (expectedParent x)).run s.files =
      (out, files)) :
    (watcher.packAndTrack C x contentHash).run s =
      (out.mapError .packer, { s with
        files, processedFiles := out.toOption.elim s.processedFiles fun result =>
          Function.update s.processedFiles x.path (some
            { size := x.size, mtime := x.mtime, baseRevisionId := some result.revisionId,
              contentHash := some contentHash }) }) := by
  have hread : (readFile x.path : WatchProg P Bytes).run s = (.ok bytes, s) := by
    rw [run_readFile, hbytes]
    rfl
  have hstore : (onStore WatcherError.packer
      (saveFile C watcher.packer x.inodeId bytes (expectedParent x))).run s =
        (out.mapError .packer, { s with files }) := by
    rw [run_onStore, hsave]
  rw [packAndTrack, dropOldRevisions_of_keepsOld hkeep]
  refine (Prog.run_bind_of_ok hread).trans ?_
  rcases out with e | result
  · exact Prog.run_bind_of_error hstore
  · exact (Prog.run_bind_of_ok hstore).trans rfl

/-- A packing that is cut off before the chunks are prepared. -/
theorem cut_packAndTrack {x : Inspected} (hkeep : KeepsOld x) (contentHash : String)
    {s : WatchState P} {bytes : Bytes} (hbytes : bytesAt x.path s = some bytes) {m : ℕ}
    (hm : m ≤ (preparation C watcher.packer x.inodeId bytes).count s.files) :
    (watcher.packAndTrack C x contentHash).cut (m + 1) s = { s with
      files := (saveFile C watcher.packer x.inodeId bytes (expectedParent x)).cut m s.files } := by
  have hread : (readFile x.path : WatchProg P Bytes).run s = (.ok bytes, s) := by
    rw [run_readFile, hbytes]
    rfl
  have hsingle : (readFile x.path : WatchProg P Bytes).count s = 1 := by
    rw [readFile, Prog.count_query_bind]
    rcases s.disk x.path with _ | file | _ <;> rfl
  have hcount : m ≤ (saveFile C watcher.packer x.inodeId bytes
      (expectedParent x)).count s.files := by
    rw [saveFile, preparePack_eq, Prog.bind_assoc]
    exact hm.trans (Prog.count_le_bind _ _ _)
  rw [packAndTrack, dropOldRevisions_of_keepsOld hkeep]
  refine (Prog.cut_bind_of_single hread hsingle m).trans ?_
  rw [Prog.cut_bind_of_le (by rwa [count_onStore]), cut_onStore]

/-- No failure of a packing falls behind the preparation of the chunks. -/
def FailsEarly (C : ChunkPrimitives P) (watcher : FileWatcher) (x : Inspected) (fault : Fault)
    (s : WatchState P) : Prop :=
  ∀ f ∈ fault, ∀ bytes, bytesAt x.path s = some bytes →
    f.1 ≤ (preparation C watcher.packer x.inodeId bytes).count s.files + 1

/-- What a packing does: the bytes of the file are the current revision of its inode, or the
revisions are those of before. -/
structure Packed (C : ChunkPrimitives P) (known : Bytes → Prop) (cur vaultKey : P.Key)
    (keys : UnlockedVaultKeys P) (x : Inspected) (s : WatchState P)
    (r : Except WatcherError PackResult × WatchState P) : Prop where
  carried : Carried C known cur vaultKey keys s.files r.2.files
  disk : r.2.disk = s.disk
  tracked : ∀ path e, r.2.processedFiles path = some e → s.processedFiles path = some e ∨
    ∀ b ∈ e.baseRevisionId, HasRevision r.2.files.db b
  failed : ∀ e, r.1 = .error e → SameRevisionsOf x.inodeId s.files.db r.2.files.db
  stored : ∀ result, r.1 = .ok result → ∃ bytes, bytesAt x.path s = some bytes ∧
    CurrentIs x.inodeId result.revisionId r.2.files.db ∧
      Stores C known cur vaultKey keys result.revisionId bytes r.2.files

theorem CurrentIs.hasRevision {inodeId revisionId : ℤ} {db : FileDb}
    (h : CurrentIs inodeId revisionId db) : HasRevision db revisionId := by
  obtain ⟨r, hr, hid⟩ := h
  exact ⟨r, mem_currentRevision hr, hid⟩

theorem packed_of_runUntil (ideal : C.Ideal) (hfree : C.CollisionFree n known) {x : Inspected}
    {s : WatchState P} (hintact : Intact C known cur vaultKey keys s.files)
    (hpieces : ∀ path bytes, bytesAt path s = some bytes → PiecesKnown known watcher bytes)
    (hx : Awaited s.files x) (hkeep : KeepsOld x) (contentHash : String) {fault : Fault}
    (hearly : FailsEarly C watcher x fault s)
    (hdraws : (runUntil fault (watcher.packAndTrack C x contentHash) s).2.files.vault.draws ≤ n) :
    Packed C known cur vaultKey keys x s
      (runUntil fault (watcher.packAndTrack C x contentHash) s) := by
  have hunchanged : ∀ e, Packed C known cur vaultKey keys x s (.error e, s) := fun e =>
    ⟨hintact.carried, rfl, fun _ _ he => .inl he, fun _ _ _ _ => Iff.rfl, by simp⟩
  cases hbytes : bytesAt x.path s with
  | none =>
    cases fault with
    | none =>
      rw [runUntil, run_packAndTrack_missing hkeep contentHash hbytes]
      exact hunchanged _
    | some f =>
      rw [runUntil, cut_packAndTrack_missing hkeep contentHash hbytes]
      exact hunchanged _
  | some bytes =>
    cases fault with
    | none =>
      rcases hsave : (saveFile C watcher.packer x.inodeId bytes (expectedParent x)).run s.files
        with ⟨out, files⟩
      have hrun : (watcher.packAndTrack C x contentHash).run s = _ :=
        run_packAndTrack hkeep contentHash hbytes hsave
      rw [runUntil, hrun] at hdraws ⊢
      obtain ⟨hcarried, herror, hok⟩ := run_saveFile ideal hfree hintact hx.1 watcher.packer
        (hpieces _ _ hbytes) hx.2 hsave hdraws
      rcases out with e | result
      · exact ⟨hcarried, rfl, fun _ _ he => .inl he, fun _ _ => herror e rfl,
          fun _ hr => by cases hr⟩
      · obtain ⟨hcurrent, hstores⟩ := hok result rfl
        refine ⟨hcarried, rfl, fun path e he => ?_, (fun _ hr => by cases hr), fun r hr => ?_⟩
        · by_cases hpath : path = x.path
          · right
            intro b hb
            have hself : some result.revisionId = e.baseRevisionId := by
              have hentry := he
              simp only [Option.elim, Except.toOption, hpath, Function.update_self,
                Option.some.injEq] at hentry
              rw [← hentry]
            obtain rfl : result.revisionId = b := Option.some.inj (hself.trans hb)
            exact hcurrent.hasRevision
          · left
            simpa [Option.elim, Except.toOption, hpath] using he
        · obtain rfl : result = r := Except.ok.inj hr
          exact ⟨bytes, hbytes, hcurrent, hstores⟩
    | some f =>
      rcases f with ⟨m, e⟩
      cases m with
      | zero =>
        rw [runUntil, Prog.cut_zero]
        exact hunchanged e
      | succ m =>
        have hm : m ≤ (preparation C watcher.packer x.inodeId bytes).count s.files :=
          Nat.le_of_succ_le_succ (hearly _ rfl bytes hbytes)
        obtain ⟨hcarried, hdb⟩ := cut_saveFile ideal hintact watcher.packer
          (hpieces _ _ hbytes) (expectedParent x) hm
        rw [runUntil, cut_packAndTrack hkeep contentHash hbytes hm]
        exact ⟨hcarried, rfl, fun _ _ he => .inl he, fun _ _ r _ => by rw [hdb], by simp⟩

theorem WatchInv.onPack (ideal : C.Ideal) (hfree : C.CollisionFree n known)
    (h : WatchInv C known cur vaultKey keys watcher n s) {x : Inspected} (hx : Awaited s.files x)
    (hkeep : KeepsOld x) (contentHash : String) {fault : Fault}
    (hearly : FailsEarly C watcher x fault s.toWatchState)
    (hdraws : (s.onPack C watcher x contentHash fault).files.vault.draws ≤ n) :
    Advanced C known cur vaultKey keys watcher n s (s.onPack C watcher x contentHash fault) := by
  have hpacked : (runUntil fault (watcher.packAndTrack C x contentHash)
        s.toWatchState).2.files.vault.draws ≤ n → Packed C known cur vaultKey keys x s.toWatchState
      (runUntil fault (watcher.packAndTrack C x contentHash) s.toWatchState) :=
    packed_of_runUntil ideal hfree h.intact h.pieces hx hkeep contentHash hearly
  rw [WatchRun.onPack] at hdraws ⊢
  rcases hrun : runUntil fault (watcher.packAndTrack C x contentHash) s.toWatchState with
    ⟨e | result, st⟩
  · rw [hrun] at hdraws hpacked
    obtain ⟨hcarried, hdisk, htracked, -, -⟩ := hpacked hdraws
    exact h.moved st hcarried hdisk htracked hdraws (fun _ hy => by cases hy) _ fun _ hv => .inl hv
  · rw [hrun] at hdraws hpacked
    obtain ⟨hcarried, hdisk, htracked, -, hstored⟩ := hpacked hdraws
    obtain ⟨bytes, hbytes, -, hstores⟩ := hstored result rfl
    refine h.moved st hcarried hdisk htracked hdraws (fun _ hy => by cases hy) _ fun v hv => ?_
    rcases List.mem_append.mp hv with hold | hnew
    · exact .inl hold
    · rw [hbytes] at hnew
      obtain rfl : v = (result.revisionId, bytes) := List.mem_singleton.mp hnew
      exact .inr hstores

/-- A step of another part of the program. -/
theorem WatchInv.withFiles (h : WatchInv C known cur vaultKey keys watcher n s)
    {files : FileWorld P} (hcarried : Carried C known cur vaultKey keys s.files files)
    (hdraws : files.vault.draws ≤ n) {written : List (ℤ × Bytes)}
    (hwritten : ∀ v ∈ written, v ∈ s.written ∨ Stores C known cur vaultKey keys v.1 v.2 files) :
    Advanced C known cur vaultKey keys watcher n s { s.withFiles files with written } := by
  have hwaiting : ∀ x ∈ s.stage.inspected, Awaited files x :=
    fun x hx => hcarried.awaited (h.waiting x hx)
  exact h.moved { s.toWatchState with files } hcarried rfl (fun _ _ he => .inl he) hdraws
    hwaiting s.outcome hwritten

theorem WatchInv.onSave (ideal : C.Ideal) (hfree : C.CollisionFree n known)
    (h : WatchInv C known cur vaultKey keys watcher n s) {inodeId : ℤ} {source : Bytes}
    (hinode : inodeId ∈ (historyOf s.files.db).inodeIds)
    (hpieces : PiecesKnown known watcher source)
    (hdraws : (s.onSave C watcher inodeId source).files.vault.draws ≤ n) :
    Advanced C known cur vaultKey keys watcher n s (s.onSave C watcher inodeId source) := by
  rw [WatchRun.onSave] at hdraws ⊢
  rcases hsave : (saveFile C watcher.packer inodeId source none).run s.files with ⟨out, files⟩
  have hdraws' : files.vault.draws ≤ n := by
    rw [hsave] at hdraws
    rcases out with e | result <;> exact hdraws
  obtain ⟨hcarried, -, hok⟩ := run_saveFile ideal hfree h.intact hinode watcher.packer hpieces
    (by simp) hsave hdraws'
  rcases out with e | result
  · exact h.withFiles hcarried hdraws' fun _ hv => .inl hv
  · obtain ⟨-, hstores⟩ := hok result rfl
    refine h.withFiles hcarried hdraws' fun v hv => ?_
    rcases List.mem_append.mp hv with hold | hnew
    · exact .inl hold
    · obtain rfl : v = (result.revisionId, source) := List.mem_singleton.mp hnew
      exact .inr hstores

end Steps

/-! ## Steps of the system -/

namespace WatchOp

/-- Whatever is written is packed in known pieces, and revisions written elsewhere belong to inodes
that are there. -/
def Legal (known : Bytes → Prop) (watcher : FileWatcher) (op : WatchOp) (s : WatchRun P) : Prop :=
  (∀ path file, op = .change path (some (.file file)) → PiecesKnown known watcher file.bytes) ∧
    ∀ inodeId source, op = .save inodeId source →
      inodeId ∈ (historyOf s.files.db).inodeIds ∧ PiecesKnown known watcher source

/-- A file with a revision is packed with versioning, and no failure falls between a new revision
and its last chunk. -/
def Safe (C : ChunkPrimitives P) (watcher : FileWatcher) (op : WatchOp) (s : WatchRun P) : Prop :=
  ∀ fault x contentHash, op = .pack fault → s.stage = .packing x contentHash →
    KeepsOld x ∧ FailsEarly C watcher x fault s.toWatchState

variable {watcher : FileWatcher} {n : ℕ} {s : WatchRun P}

/-- A step keeps the invariant. -/
theorem advanced (ideal : C.Ideal) (hfree : C.CollisionFree n known) (op : WatchOp)
    (h : WatchInv C known cur vaultKey keys watcher n s)
    (hdraws : (op.step C watcher keys s).files.vault.draws ≤ n) (hlegal : op.Legal known watcher s)
    (hsafe : op.Safe C watcher s) :
    Advanced C known cur vaultKey keys watcher n s (op.step C watcher keys s) := by
  obtain ⟨hchange, hsave⟩ := hlegal
  have hstay : Advanced C known cur vaultKey keys watcher n s s := ⟨h.intact.carried, h⟩
  cases op with
  | event path fault =>
    rw [step] at hdraws ⊢
    split at hdraws
    · exact h.onDeleted path fault hdraws
    · exact h.onInspect path fault hdraws
    · exact hstay
  | scan path fault =>
    rw [step] at hdraws ⊢
    split at hdraws
    · exact h.onInspect path fault hdraws
    · exact hstay
  | hash fault =>
    rw [step] at hdraws ⊢
    split at hdraws
    · rename_i x hstage
      exact h.onHash (h.waiting x (by rw [hstage]; rfl)) fault hdraws
    · exact hstay
  | pack fault =>
    rw [step] at hdraws ⊢
    split at hdraws
    · rename_i x contentHash hstage
      obtain ⟨hkeep, hearly⟩ := hsafe fault x contentHash rfl hstage
      exact h.onPack ideal hfree (h.waiting x (by rw [hstage]; rfl)) hkeep contentHash hearly hdraws
    · exact hstay
  | change path entry =>
    refine ⟨h.intact.carried, h.intact, h.draws, fun path' bytes hbytes => ?_, h.tracked, h.waiting,
      h.written⟩
    by_cases hpath : path' = path
    · rw [step, bytesAt] at hbytes
      dsimp only at hbytes
      rw [hpath, Function.update_self] at hbytes
      rcases entry with _ | file | _
      · cases hbytes
      · obtain rfl : file.bytes = bytes := Option.some.inj hbytes
        exact hchange path file rfl
      · cases hbytes
    · apply h.pieces path' bytes
      rw [step, bytesAt] at hbytes
      dsimp only at hbytes
      rwa [Function.update_of_ne hpath] at hbytes
  | lock => exact h.withFiles (h.intact.carried.setSlot (.inl rfl)) hdraws fun _ hv => .inl hv
  | unlock => exact h.withFiles (h.intact.carried.setSlot (.inr rfl)) hdraws fun _ hv => .inl hv
  | restart =>
    exact ⟨h.intact.carried, h.intact, h.draws, h.pieces, (fun _ _ he => by cases he),
      (fun _ hx => by cases hx), h.written⟩
  | setPolicies policies policyTypes =>
    have hcarried := h.intact.carried.edit s.files.db.inodes s.files.db.inodeSequence policyTypes
      s.files.now (fun _ hi => hi) h.intact.carried.inodeIds_le
    let files := s.files.withDb { s.files.db with policyTypes }
    exact h.moved { s.toWatchState with files, policies } hcarried rfl (fun _ _ he => .inl he)
      hdraws h.waiting s.outcome fun _ hv => .inl hv
  | tick now =>
    have hcarried := h.intact.carried.edit s.files.db.inodes s.files.db.inodeSequence
      s.files.db.policyTypes now (fun _ hi => hi) h.intact.carried.inodeIds_le
    exact h.withFiles hcarried hdraws fun _ hv => .inl hv
  | promote revisionId =>
    exact h.withFiles (h.intact.promote revisionId) hdraws fun _ hv => .inl hv
  | save inodeId source =>
    obtain ⟨hinode, hpieces⟩ := hsave inodeId source rfl
    exact h.onSave ideal hfree hinode hpieces hdraws

end WatchOp

/-! ## What a run leaves -/

theorem run_promote {w : FileWorld P} (hinv : (historyOf w.db).Inv w.db.inodeSequence)
    {r : FileRevisionRecord} (hr : r ∈ w.db.fileRevisions) :
    ((Db.promoteRevisionToCurrent r.revisionId).run w).2 =
      w.withDb (Db.setCurrent r.inodeId r.revisionId w.db) := by
  have hfind : w.db.fileRevisions.find? (·.revisionId = r.revisionId) = some r :=
    find?_of_mem hinv hr
  rw [Db.promoteRevisionToCurrent, Prog.run_execReturning_bind, hfind]
  rfl

/-- The row of a revision after its promotion. -/
theorem mem_setCurrent {db : FileDb} {r : FileRevisionRecord} (hr : r ∈ db.fileRevisions) :
    ∃ row ∈ (Db.setCurrent r.inodeId r.revisionId db).fileRevisions,
      SameRow r row ∧ row.isCurrent = true := by
  obtain ⟨mid, hmid, hsame⟩ := exists_cleared hr r.inodeId
  refine ⟨_, mem_updateWhere.mpr ⟨mid, hmid, rfl⟩, ?_⟩
  rw [if_pos (by simpa using hsame.1)]
  exact ⟨hsame, rfl⟩

/-- Promoting the revision and restoring its file gives back these bytes, as soon as enough shards
of each pack can be had. -/
def Retrievable (C : ChunkPrimitives P) (keys : UnlockedVaultKeys P) (revisionId : ℤ)
    (bytes : Bytes) (w : FileWorld P) : Prop :=
  ∃ r ∈ w.db.fileRevisions, r.revisionId = revisionId ∧ ∀ net,
    let promoted := ((Db.promoteRevisionToCurrent revisionId).run (w.opened keys)).2
    EnoughShards net r.inodeId promoted →
      ∃ restored, ((Downloader.restoreFile C net r.inodeId).run promoted).1 = .ok restored ∧
        restored.output = bytes

theorem Stores.retrievable (ideals : P.Ideal) (ideal : C.Ideal) {n : ℕ}
    (hfree : C.CollisionFree n known) {revisionId : ℤ} {bytes : Bytes}
    (hintact : Intact C known cur vaultKey keys w) (hdraws : w.vault.draws ≤ n)
    (h : Stores C known cur vaultKey keys revisionId bytes w) (hne : bytes ≠ []) :
    Retrievable C keys revisionId bytes w := by
  obtain ⟨all, chunks, hstore, ⟨r, hr, rfl⟩, cs, hcs, hrefs, hbytes, hfits⟩ := h
  refine ⟨r, hr, rfl, fun net henough => ?_⟩
  have hopened : Intact C known cur vaultKey keys (w.opened keys) :=
    ⟨.inr rfl, ⟨all, chunks, hstore⟩, hintact.history⟩
  have hcarried := hopened.promote r.revisionId
  obtain ⟨row, hrow, hsame, hflag⟩ := mem_setCurrent hr
  rw [run_promote hopened.history hr] at henough hcarried ⊢
  obtain ⟨all', chunks', hsub, hstore'⟩ := hcarried.store all chunks hstore
  have hpacked : FilePacked C r.inodeId r.revisionId bytes cs
      (Db.setCurrent r.inodeId r.revisionId w.db) := by
    refine ⟨⟨row, hrow, hsame.1, hsame.2.1, hflag⟩, fun c hc hplace hcurrent => ?_, hrefs, hbytes,
      hfits⟩
    have heq : c = row :=
      hcarried.history.only c hc row hrow (hplace.trans hsame.2.1.symm) hcurrent hflag
    rw [heq]
    exact hsame.1
  have hseparate : Separate C all' := separate_of_collisionFree ideal hfree hstore'.files.known
    (fun c hc => (hstore'.files.drawn c hc).trans_le hdraws) hstore'.files.distinct
  obtain ⟨-, hrestored⟩ := run_restoreFile ideals ideal hseparate hstore'
    (fun c hc => hsub c (hcs c hc)) hpacked henough
  obtain ⟨restored, hrun, houtput, -⟩ := hrestored hne
  exact ⟨restored, hrun, houtput⟩

/-- An inode with a revision has a current one. -/
theorem exists_currentIs {first : ℤ} {db : FileDb} (hinv : (historyOf db).Inv first)
    {r : FileRevisionRecord} (hr : r ∈ db.fileRevisions) :
    ∃ revisionId, CurrentIs r.inodeId revisionId db := by
  obtain ⟨c, hc, hplace, hflag⟩ := hinv.current r hr
  have hmem : c ∈ orderBy (fun r => -r.revisionId)
      (db.fileRevisions.filter fun r' => r'.inodeId = r.inodeId && r'.isCurrent) := by
    rw [Tables.mem_orderBy, List.mem_filter]
    exact ⟨hc, by simp [hplace, hflag]⟩
  have hsome : (Db.currentRevision r.inodeId db).isSome = true := by
    rw [Db.currentRevision, List.isSome_head?]
    exact List.ne_nil_of_mem hmem
  obtain ⟨row, hrow⟩ := Option.isSome_iff_exists.mp hsome
  exact ⟨row.revisionId, row, hrow, rfl⟩

theorem Carried.current (h : Carried C known cur vaultKey keys w w') {inodeId revisionId : ℤ}
    (hcurrent : CurrentIs inodeId revisionId w.db) :
    ∃ revisionId', CurrentIs inodeId revisionId' w'.db := by
  obtain ⟨r, hr, -⟩ := hcurrent
  obtain ⟨r', hr', hsame⟩ := h.revisions r (mem_currentRevision hr)
  have hplace : r.inodeId = inodeId := by
    have hmem := List.mem_of_mem_head? (Option.mem_def.mpr hr)
    rw [Tables.mem_orderBy, List.mem_filter] at hmem
    simpa using (Bool.and_eq_true_iff.mp hmem.2).1
  rw [← hplace, ← hsame.2.1]
  exact exists_currentIs h.history hr'

namespace WatchOp

/-- What a step keeps of the revisions: an inode with revisions has a current one, and a packing
either makes the bytes of the file the current revision or changes no revision of the inode. -/
structure Faithful (C : ChunkPrimitives P) (watcher : FileWatcher) (keys : UnlockedVaultKeys P)
    (op : WatchOp) (s : WatchRun P) : Prop where
  current : ∀ inodeId revisionId, CurrentIs inodeId revisionId s.files.db →
    ∃ revisionId', CurrentIs inodeId revisionId' (op.step C watcher keys s).files.db
  packed : ∀ fault x contentHash, op = .pack fault → s.stage = .packing x contentHash →
    ((op.step C watcher keys s).outcome = some (.ok ()) ∧ ∃ revisionId bytes,
      bytesAt x.path s.toWatchState = some bytes ∧
      CurrentIs x.inodeId revisionId (op.step C watcher keys s).files.db ∧
      (revisionId, bytes) ∈ (op.step C watcher keys s).written) ∨
    (∃ e, (op.step C watcher keys s).outcome = some (.error e)) ∧
      SameRevisionsOf x.inodeId s.files.db (op.step C watcher keys s).files.db

theorem faithful {watcher : FileWatcher} {n : ℕ} {s : WatchRun P} (ideal : C.Ideal)
    (hfree : C.CollisionFree n known) (op : WatchOp)
    (h : WatchInv C known cur vaultKey keys watcher n s)
    (hdraws : (op.step C watcher keys s).files.vault.draws ≤ n) (hlegal : op.Legal known watcher s)
    (hsafe : op.Safe C watcher s) : op.Faithful C watcher keys s where
  current inodeId revisionId hcurrent :=
    (advanced ideal hfree op h hdraws hlegal hsafe).carried.current hcurrent
  packed fault x contentHash hop hstage := by
    obtain ⟨hkeep, hearly⟩ := hsafe fault x contentHash hop hstage
    rw [hop, step, hstage] at hdraws ⊢
    dsimp only at hdraws ⊢
    rw [WatchRun.onPack] at hdraws ⊢
    have hpacked : (runUntil fault (watcher.packAndTrack C x contentHash)
        s.toWatchState).2.files.vault.draws ≤ n → Packed C known cur vaultKey keys x s.toWatchState
          (runUntil fault (watcher.packAndTrack C x contentHash) s.toWatchState) :=
      packed_of_runUntil ideal hfree h.intact h.pieces (h.waiting x (by rw [hstage]; rfl)) hkeep
        contentHash hearly
    rcases hrun : runUntil fault (watcher.packAndTrack C x contentHash) s.toWatchState with
      ⟨e | result, st⟩
    · rw [hrun] at hdraws hpacked
      exact .inr ⟨⟨e, rfl⟩, (hpacked hdraws).failed e rfl⟩
    · rw [hrun] at hdraws hpacked
      obtain ⟨bytes, hbytes, hcurrent, -⟩ := (hpacked hdraws).stored result rfl
      refine .inl ⟨rfl, result.revisionId, bytes, hbytes, hcurrent, ?_⟩
      rw [hbytes]
      exact List.mem_append_right _ (List.mem_singleton_self _)

end WatchOp

/-- Whatever the user, the lock of the vault and the rest of the program do between the steps of the
watcher, every packing stores the bytes it read or changes nothing, and everything that was ever
stored can be had back. -/
theorem watcher_loses_nothing (ideals : P.Ideal) (ideal : C.Ideal) {n : ℕ}
    (hfree : C.CollisionFree n known) {watcher : FileWatcher} {ops : List WatchOp} {s : WatchRun P}
    (hs : WatchInv C known cur vaultKey keys watcher n s)
    (hlegal : guarded (fun op => op.step C watcher keys) (fun op => op.Legal known watcher) ops s)
    (hdraws : ∀ t ∈ states (fun op => op.step C watcher keys) ops s, t.files.vault.draws ≤ n)
    (hsafe : guarded (fun op => op.step C watcher keys) (fun op => op.Safe C watcher) ops s) :
    guarded (fun op => op.step C watcher keys) (fun op => op.Faithful C watcher keys) ops s ∧
      ∀ t ∈ states (fun op => op.step C watcher keys) ops s, ∀ v ∈ t.written, v.2 ≠ [] →
        Retrievable C keys v.1 v.2 t.files := by
  let step := fun (op : WatchOp) (s : WatchRun P) => op.step C watcher keys s
  let legal := fun (op : WatchOp) (s : WatchRun P) =>
    (step op s).files.vault.draws ≤ n ∧ op.Legal known watcher s
  have hlegal' : guarded step legal ops s := by
    have hdrawn : guarded step (fun op s => (step op s).files.vault.draws ≤ n) ops s :=
      guarded_of_states step hdraws fun _ _ _ _ hnext => hnext
    exact guarded_and step hdrawn hlegal
  have hkeep : ∀ (op : WatchOp) (s : WatchRun P), WatchInv C known cur vaultKey keys watcher n s →
      legal op s → op.Safe C watcher s →
        WatchInv C known cur vaultKey keys watcher n (step op s) :=
    fun op _ h hlegal hsafe => (op.advanced ideal hfree h hlegal.1 hlegal.2 hsafe).inv
  refine ⟨guarded_of_inv step legal _ _ hkeep
    (fun op s h hlegal hsafe => op.faithful ideal hfree h hlegal.1 hlegal.2 hsafe) hs hlegal' hsafe,
    fun t ht v hv hne => ?_⟩
  have hinv := inv_of_guarded step legal _ _ hkeep hs hlegal' hsafe t ht
  exact (hinv.written v hv).retrievable ideals ideal hfree hinv.intact hinv.draws hne

/-- A watcher that starts on an empty store. -/
theorem WatchInv.fresh {vault : VaultWorld P} (hopen : VaultOpen cur vaultKey vault)
    (hinner : vault.inner = some keys) (watcher : FileWatcher) (policyTypes : ℤ → Option String)
    (policies : List SyncPolicyRow) {n : ℕ} (hdraws : vault.draws ≤ n) :
    WatchInv C known cur vaultKey keys watcher n
      { files := (FileWorld.fresh vault).withDb { policyTypes }, policies } where
  intact := by
    have hstore : StoreInv C known cur vaultKey [] []
        ((FileWorld.fresh vault).withDb { policyTypes }) :=
      (StoreInv.fresh hopen).edit [] 0 policyTypes 0
    refine ⟨.inr hinner, ⟨[], [], ?_⟩, ?_⟩
    · rwa [FileWorld.opened_of_inner hinner]
    · exact .fresh le_rfl (by simp [historyOf]) rfl rfl rfl
  draws := hdraws
  pieces _ _ hbytes := by cases hbytes
  tracked _ _ he := by cases he
  waiting _ hx := by cases hx
  written _ hv := by cases hv

/-! ## A file that is packed once the vault is unlocked -/

def openKeys : UnlockedVaultKeys symbolic :=
  .withEnvelopeKey (.random 100) (.random 101) (.random 102)

def spoolWatcher : FileWatcher := ⟨["spool"], fourByteChunks⟩

def keepRevisions : SyncPolicyRow :=
  { policyId := 1, pathPrefix := "/", policyType := "LOCAL", requireHealthy := 0,
    enableVersioning := 1 }

def emptyWatch : WatchRun symbolic :=
  { files := (FileWorld.fresh openVault).withDb { policyTypes := fun _ => some "LOCAL" }
    policies := [keepRevisions] }

theorem oneByte_collisionFree : symbolicChunks.CollisionFree 2 (· = [7]) := by
  intro i j p q hi hj hp hq h
  rw [hp, hq] at h ⊢
  refine ⟨?_, rfl⟩
  interval_cases i <;> interval_cases j <;> first | rfl | exact absurd h (by decide)

theorem emptyWatch_inv : WatchInv symbolicChunks (· = [7]) (SymbolicKey.random 102) (.random 101)
    openKeys spoolWatcher 2 emptyWatch :=
  .fresh openVault_open rfl spoolWatcher _ _ (by decide)

/-- The vault is locked before the file is packed. -/
def lockedPacking : List WatchOp :=
  [.change ["a"] (some (.file ⟨[7], none⟩)), .event ["a"] none, .hash none, .lock, .pack none,
    .unlock, .event ["a"] none, .hash none, .pack none]

theorem watcher_loses_nothing_locked :
    let step := fun (op : WatchOp) => op.step symbolicChunks spoolWatcher openKeys
    (∃ t ∈ states step lockedPacking emptyWatch, (1, [7]) ∈ t.written) ∧
      guarded step (fun op => op.Faithful symbolicChunks spoolWatcher openKeys) lockedPacking
        emptyWatch ∧
      ∀ t ∈ states step lockedPacking emptyWatch, ∀ v ∈ t.written, v.2 ≠ [] →
        Retrievable symbolicChunks openKeys v.1 v.2 t.files := by
  intro step
  have hreached : ∀ t ∈ states step lockedPacking emptyWatch, t.files.vault.draws ≤ 2 ∧
      ∀ x, t.stage.inspected = some x → x.policy.enableVersioning ≠ 0 := by
    have hall : ((states step lockedPacking emptyWatch).all fun t => t.files.vault.draws ≤ 2 &&
        t.stage.inspected.all fun x => decide (x.policy.enableVersioning ≠ 0)) = true := by
      decide +kernel
    intro t ht
    obtain ⟨hdraws, hstage⟩ := Bool.and_eq_true_iff.mp (List.all_eq_true.mp hall t ht)
    refine ⟨of_decide_eq_true hdraws, fun x hx => ?_⟩
    rw [hx] at hstage
    exact of_decide_eq_true hstage
  have hlegal : guarded step (fun op => op.Legal (· = [7]) spoolWatcher) lockedPacking
      emptyWatch := by
    refine guarded_of_mem step (fun op hop t => ⟨fun path file hchange => ?_, ?_⟩) emptyWatch
    · rw [hchange] at hop
      obtain ⟨-, rfl⟩ : path = ["a"] ∧ file = ⟨[7], none⟩ := by simpa [lockedPacking] using hop
      exact fun p hp => List.mem_singleton.mp hp
    · intro inodeId source hsave
      rw [hsave] at hop
      simp [lockedPacking] at hop
  refine ⟨?_, watcher_loses_nothing symbolic_ideal symbolicChunks_ideal oneByte_collisionFree
    emptyWatch_inv hlegal (fun t ht => (hreached t ht).1) ?_⟩
  · have hwritten : ((states step lockedPacking emptyWatch).any
        fun t => t.written.contains (1, [7])) = true := by
      decide +kernel
    obtain ⟨t, ht, hmem⟩ := List.any_eq_true.mp hwritten
    exact ⟨t, ht, by simpa using hmem⟩
  · refine guarded_of_states step (fun t ht => (hreached t ht).2) ?_
    intro op hop t hstage _ fault x contentHash hpack hx
    rw [hpack] at hop
    obtain rfl : fault = none := by simpa [lockedPacking] using hop
    exact ⟨.inl (hstage x (by rw [hx]; rfl)), fun f hf => by cases hf⟩

end OmniDrive
