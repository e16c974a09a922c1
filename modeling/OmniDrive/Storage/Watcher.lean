import OmniDrive.Storage.Names
import OmniDrive.Storage.Policies
import OmniDrive.Storage.SavedRevisions

/-!
# The file watcher

`process_file` of `watcher.rs` in its three steps: it looks at the metadata of a file, hashes the
file and packs it. Between two steps the user may write to the file, the vault may be locked, and
other parts of the program may write revisions. A scan of a directory is a call for each file in it.
-/

namespace OmniDrive

open StatementProgram Tables ByteFields Packer

/-- The components of an absolute path. -/
abbrev WatchPath := List String

structure SourceFile where
  bytes : Bytes
  mtime : Option ℤ
  deriving DecidableEq, Repr

inductive DiskEntry where
  | file (file : SourceFile)
  | directory
  deriving DecidableEq, Repr

structure TrackedFileState where
  size : ℕ
  mtime : Option ℤ
  baseRevisionId : Option ℤ
  contentHash : Option String
  deriving DecidableEq, Repr

inductive WatcherError where
  | invalidEnv (key : String)
  | io
  | db (err : DbError)
  | packer (err : PackerError)
  deriving DecidableEq, Repr

structure FileWatcher where
  spoolDir : WatchPath
  packer : PackerConfig

/-- The store with the files of the user, the map of processed files and the sync policies. -/
structure WatchState (P : Primitives) where
  files : FileWorld P
  disk : WatchPath → Option DiskEntry := fun _ => none
  processedFiles : WatchPath → Option TrackedFileState := fun _ => none
  policies : List SyncPolicyRow := []

variable {P : Primitives} {α ε : Type}

abbrev WatchProg (P : Primitives) (α : Type) := Prog (WatchState P) WatcherError α

/-- Run a program of the storage code. -/
def onStore (toError : ε → WatcherError) (p : FileProg P ε α) : WatchProg P α :=
  (p.mapError toError).zoom (·.files) fun files s => { s with files }

theorem run_onStore (toError : ε → WatcherError) (p : FileProg P ε α) (s : WatchState P) :
    (onStore toError p).run s =
      ((p.run s.files).1.mapError toError, { s with files := (p.run s.files).2 }) := by
  have hzoom : (onStore toError p).run s = (((p.mapError toError).run s.files).1,
      { s with files := ((p.mapError toError).run s.files).2 }) :=
    Prog.run_zoom (fun t : WatchState P => t.files) (fun files t => { t with files })
      (fun _ _ => rfl) (fun _ _ _ => rfl) (fun _ => rfl) _ s
  rwa [Prog.run_mapError] at hzoom

theorem cut_onStore (toError : ε → WatcherError) (p : FileProg P ε α) (n : ℕ) (s : WatchState P) :
    (onStore toError p).cut n s = { s with files := p.cut n s.files } := by
  have hzoom : (onStore toError p).cut n s =
      { s with files := (p.mapError toError).cut n s.files } :=
    Prog.cut_zoom (fun t : WatchState P => t.files) (fun files t => { t with files })
      (fun _ _ => rfl) (fun _ _ _ => rfl) (fun _ => rfl) n _ s
  rwa [Prog.cut_mapError] at hzoom

theorem count_onStore (toError : ε → WatcherError) (p : FileProg P ε α) (s : WatchState P) :
    (onStore toError p).count s = p.count s.files := by
  have hzoom : (onStore toError p).count s = (p.mapError toError).count s.files :=
    Prog.count_zoom (fun t : WatchState P => t.files) (fun files t => { t with files })
      (fun _ _ => rfl) _ s
  rwa [Prog.count_mapError] at hzoom

namespace Db

/-! ## `inodes.rs` -/

/-- The names of a path, without the empty ones between two slashes. -/
@[irreducible] def pathSegments (path : String) : List String :=
  ((path.toList.splitOn '/').filter (· ≠ [])).map String.ofList

/-- Follow the names from an inode down. -/
def resolveSegments : Option ℤ → List String → FileProg P DbError (Option ℤ)
  | parentId, [] => pure parentId
  | parentId, name :: rest => do
    match ← getInodeByPath parentId name with
    | none => pure none
    | some inode => resolveSegments (some inode.id) rest

@[irreducible] def resolvePath (path : String) : FileProg P DbError (Option ℤ) :=
  let trimmed := Backup.trim path
  if trimmed = "" ∨ trimmed = "/" then pure none
  else resolveSegments none (pathSegments trimmed)

end Db

namespace FileWatcher

/-! ## Paths -/

/-- A path below the spool directory. -/
def shouldIgnorePath (watcher : FileWatcher) (path : WatchPath) : Bool :=
  watcher.spoolDir.isPrefixOf path

def pathToPolicyKey (path : WatchPath) : Except WatcherError String :=
  let segments := Db.pathSegments (slashed ("/".intercalate path))
  if segments.isEmpty then .error (.invalidEnv "path_to_policy_key")
  else .ok ("/".intercalate segments)

/-- Find or create the inodes of the remaining names. -/
def ensureSegments (fileSize : ℤ) (fileMtime : Option ℤ) :
    Option ℤ → List String → FileProg P WatcherError ℤ
  | parentId, [] => Prog.ofOption (.invalidEnv "db_path") parentId
  | parentId, name :: rest => do
    let inodeId ← (Db.upsertInode parentId name (if rest.isEmpty then "FILE" else "DIR")
      (if rest.isEmpty then fileSize else 0) (if rest.isEmpty then fileMtime else none)).mapError .db
    ensureSegments fileSize fileMtime (some inodeId) rest

def ensureInodePathFromDbPath (dbPath : String) (fileSize : ℤ) (fileMtime : Option ℤ) :
    FileProg P WatcherError ℤ :=
  ensureSegments fileSize fileMtime none (Db.pathSegments dbPath)

/-! ## `process_file` -/

/-- What `process_file` has read when it hashes the file. -/
structure Inspected where
  path : WatchPath
  size : ℕ
  mtime : Option ℤ
  policy : SyncPolicyRow
  inodeId : ℤ
  current : Option FileRevisionRecord
  previous : Option TrackedFileState

/-- Same size, modification time and base revision as when the file was processed last. -/
def metadataUnchanged (previous : Option TrackedFileState) (size : ℕ) (mtime : Option ℤ)
    (current : Option FileRevisionRecord) : Bool :=
  previous.any fun prev => prev.size = size && prev.mtime = mtime &&
    prev.baseRevisionId = current.map (·.revisionId)

def fileSizeToI64 (size : ℕ) : Except WatcherError ℤ :=
  if size < 2 ^ 63 then .ok size else .error (.invalidEnv "file_size_overflow")

/-- The queries for a file with this metadata; nothing is returned for an unchanged file. -/
def inspectMetadata (path : WatchPath) (size : ℕ) (mtime : Option ℤ) :
    WatchProg P (Option Inspected) := do
  let policyPath ← Prog.ofExcept (pathToPolicyKey path)
  let policy ← Prog.query fun s => findSyncPolicyForPath s.policies policyPath
  let policy ← Prog.ofOption (.invalidEnv "sync_policy_for_path") policy
  let fileSize ← Prog.ofExcept (fileSizeToI64 size)
  let inodeId ← onStore id (ensureInodePathFromDbPath policyPath fileSize mtime)
  let current ← onStore .db (Db.getCurrentFileRevision inodeId)
  let previous ← Prog.query fun s => s.processedFiles path
  if metadataUnchanged previous size mtime current then pure none
  else pure (some { path, size, mtime, policy, inodeId, current, previous })

def inspectFile (watcher : FileWatcher) (path : WatchPath) : WatchProg P (Option Inspected) :=
  if watcher.shouldIgnorePath path then pure none
  else do
    match ← Prog.query fun s => s.disk path with
    | none => .fail .io
    | some .directory => pure none
    | some (.file file) => inspectMetadata path file.bytes.length file.mtime

/-- Remember a file as processed. -/
def track (path : WatchPath) (state : TrackedFileState) : WatchProg P Unit :=
  Prog.exec fun s => { s with processedFiles := Function.update s.processedFiles path (some state) }

/-- The file at a path, as it is opened. -/
def readFile (path : WatchPath) : WatchProg P Bytes := do
  match ← Prog.query fun s => s.disk path with
  | some (.file file) => pure file.bytes
  | _ => .fail .io

variable (C : ChunkPrimitives P)

/-- Hash the file; nothing is returned if its tracked hash is the same. -/
def hashFile (x : Inspected) : WatchProg P (Option String) := do
  let bytes ← readFile x.path
  let contentHash := C.sha256Hex bytes
  match x.previous with
  | some prev =>
    if prev.contentHash = some contentHash then do
      track x.path
        { size := x.size, mtime := x.mtime, baseRevisionId := prev.baseRevisionId,
          contentHash := some contentHash }
      pure none
    else pure (some contentHash)
  | none => pure (some contentHash)

/-- The revision that the new one is based on. -/
def expectedParent (x : Inspected) : Option ℤ :=
  (x.previous.bind (·.baseRevisionId)).or (x.current.map (·.revisionId))

/-- Without versioning, the chunks and revisions of a file with a revision go first. -/
def dropOldRevisions (x : Inspected) : WatchProg P Unit :=
  if x.policy.enableVersioning = 0 ∧ x.current.isSome then
    onStore .db (onTrash (Trash.deleteFileChunks x.inodeId))
  else pure ()

def packAndTrack (watcher : FileWatcher) (x : Inspected) (contentHash : String) :
    WatchProg P PackResult := do
  dropOldRevisions x
  let bytes ← readFile x.path
  let result ← onStore .packer (saveFile C watcher.packer x.inodeId bytes (expectedParent x))
  track x.path
    { size := x.size, mtime := x.mtime, baseRevisionId := some result.revisionId,
      contentHash := some contentHash }
  pure result

def processFile (watcher : FileWatcher) (path : WatchPath) : WatchProg P Unit := do
  match ← watcher.inspectFile path with
  | none => pure ()
  | some x => do
    match ← hashFile C x with
    | none => pure ()
    | some contentHash => do
      let _ ← watcher.packAndTrack C x contentHash
      pure ()

/-! ## `process_event_path` -/

/-- Forget a path. -/
def untrack (path : WatchPath) : WatchProg P Unit :=
  Prog.exec fun s => { s with processedFiles := Function.update s.processedFiles path none }

def handleDeletedPath (path : WatchPath) : WatchProg P Unit := do
  untrack path
  let dbPath ← Prog.ofExcept (pathToPolicyKey path)
  match ← onStore .db (Db.resolvePath dbPath) with
  | none => pure ()
  | some inodeId => do
    match ← onStore .db (Db.getInodeById inodeId) with
    | none => pure ()
    | some inode =>
      if inode.kind ≠ "FILE" then pure ()
      else Prog.exec fun s =>
        { s with files :=
          { s.files with db := Trash.softDeleteInode inodeId s.files.now s.files.db } }

end FileWatcher

/-! ## Runs -/

open FileWatcher

/-- Where a call of `process_file` waits. -/
inductive WatchStage where
  | idle
  | hashing (x : Inspected)
  | packing (x : Inspected) (contentHash : String)

/-- The watcher in the middle of its work. Noted are the outcome of the last call and the bytes of
every save that succeeded, by revision. -/
structure WatchRun (P : Primitives) extends WatchState P where
  stage : WatchStage := .idle
  outcome : Option (Except WatcherError Unit) := none
  written : List (ℤ × Bytes) := []

/-- A failure after so many statements. -/
abbrev Fault := Option (ℕ × WatcherError)

/-- Run a part of the watcher, to its end or to the failure. -/
def runUntil (fault : Fault) (p : WatchProg P α) (s : WatchState P) :
    Except WatcherError α × WatchState P :=
  match fault with
  | none => p.run s
  | some (n, e) => (.error e, p.cut n s)

/-- What happens to a watched directory: an event or a scan reaches a path, a call goes on, the user
changes a file, the vault is locked or unlocked, the watcher starts again, policies change, or
revisions are promoted and written elsewhere. -/
inductive WatchOp where
  | event (path : WatchPath) (fault : Fault)
  | scan (path : WatchPath) (fault : Fault)
  | hash (fault : Fault)
  | pack (fault : Fault)
  | change (path : WatchPath) (entry : Option DiskEntry)
  | lock
  | unlock
  | restart
  | setPolicies (policies : List SyncPolicyRow) (policyTypes : ℤ → Option String)
  | tick (now : ℤ)
  | promote (revisionId : ℤ)
  | save (inodeId : ℤ) (source : Bytes)

namespace WatchRun

/-- The call has ended. -/
def finish (outcome : Except WatcherError Unit) (state : WatchState P) (s : WatchRun P) :
    WatchRun P :=
  { s with toWatchState := state, stage := .idle, outcome := some outcome }

/-- The call goes on at another stage. -/
def goTo (stage : WatchStage) (state : WatchState P) (s : WatchRun P) : WatchRun P :=
  { s with toWatchState := state, stage }

def onInspect (watcher : FileWatcher) (path : WatchPath) (fault : Fault) (s : WatchRun P) :
    WatchRun P :=
  match runUntil fault (watcher.inspectFile path) s.toWatchState with
  | (.error e, state) => s.finish (.error e) state
  | (.ok none, state) => s.finish (.ok ()) state
  | (.ok (some x), state) => s.goTo (.hashing x) state

def onDeleted (path : WatchPath) (fault : Fault) (s : WatchRun P) : WatchRun P :=
  let (out, state) := runUntil fault (handleDeletedPath path) s.toWatchState
  s.finish out state

variable (C : ChunkPrimitives P)

def onHash (x : Inspected) (fault : Fault) (s : WatchRun P) : WatchRun P :=
  match runUntil fault (hashFile C x) s.toWatchState with
  | (.error e, state) => s.finish (.error e) state
  | (.ok none, state) => s.finish (.ok ()) state
  | (.ok (some contentHash), state) => s.goTo (.packing x contentHash) state

/-- The bytes at a path. -/
def bytesAt (path : WatchPath) (s : WatchState P) : Option Bytes :=
  match s.disk path with
  | some (.file file) => some file.bytes
  | _ => none

def onPack (watcher : FileWatcher) (x : Inspected) (contentHash : String) (fault : Fault)
    (s : WatchRun P) : WatchRun P :=
  match runUntil fault (watcher.packAndTrack C x contentHash) s.toWatchState with
  | (.error e, state) => s.finish (.error e) state
  | (.ok result, state) =>
    { s.finish (.ok ()) state with
      written := s.written ++
        ((bytesAt x.path s.toWatchState).map fun bytes => (result.revisionId, bytes)).toList }

/-- Change the store. -/
def withFiles (files : FileWorld P) (s : WatchRun P) : WatchRun P :=
  { s with toWatchState := { s.toWatchState with files } }

/-- Another part of the program writes a revision. -/
def onSave (watcher : FileWatcher) (inodeId : ℤ) (source : Bytes) (s : WatchRun P) : WatchRun P :=
  match (saveFile C watcher.packer inodeId source none).run s.files with
  | (.error _, files) => s.withFiles files
  | (.ok result, files) =>
    { s.withFiles files with written := s.written ++ [(result.revisionId, source)] }

end WatchRun

open WatchRun

namespace WatchOp

/-- One step; a call that does not wait there is not continued. -/
def step (C : ChunkPrimitives P) (watcher : FileWatcher) (keys : UnlockedVaultKeys P) (op : WatchOp)
    (s : WatchRun P) : WatchRun P :=
  match op with
  | .event path fault =>
    match s.stage, watcher.shouldIgnorePath path, s.disk path with
    | .idle, false, none => s.onDeleted path fault
    | .idle, false, some (.file _) => s.onInspect watcher path fault
    | _, _, _ => s
  | .scan path fault =>
    match s.stage with
    | .idle => s.onInspect watcher path fault
    | _ => s
  | .hash fault =>
    match s.stage with
    | .hashing x => s.onHash C x fault
    | _ => s
  | .pack fault =>
    match s.stage with
    | .packing x contentHash => s.onPack C watcher x contentHash fault
    | _ => s
  | .change path entry =>
    { s with toWatchState := { s.toWatchState with disk := Function.update s.disk path entry } }
  | .lock => s.withFiles { s.files with vault := { s.files.vault with inner := none } }
  | .unlock => s.withFiles (s.files.opened keys)
  | .restart =>
    { s with toWatchState := { s.toWatchState with processedFiles := fun _ => none }, stage := .idle }
  | .setPolicies policies policyTypes =>
    { s with toWatchState := { s.toWatchState with
        files := s.files.withDb { s.files.db with policyTypes }, policies } }
  | .tick now => s.withFiles { s.files with now }
  | .promote revisionId => s.withFiles ((Db.promoteRevisionToCurrent revisionId).run s.files).2
  | .save inodeId source => s.onSave C watcher inodeId source

end WatchOp

/-- With nothing in between, the three steps are a call of `process_file`. -/
theorem steps_processFile (C : ChunkPrimitives P) (watcher : FileWatcher)
    (keys : UnlockedVaultKeys P) (path : WatchPath) {s : WatchRun P} (hidle : s.stage = .idle) :
    [WatchOp.scan path none, .hash none, .pack none].foldl
        (fun t op => op.step C watcher keys t) s =
      { ([WatchOp.scan path none, .hash none, .pack none].foldl
          (fun t op => op.step C watcher keys t) s) with
        toWatchState := ((watcher.processFile C path).run s.toWatchState).2
        stage := .idle
        outcome := some ((watcher.processFile C path).run s.toWatchState).1 } := by
  simp only [List.foldl_cons, List.foldl_nil, WatchOp.step, hidle]
  rw [processFile, onInspect, runUntil]
  rcases hinspect : (watcher.inspectFile path).run s.toWatchState with ⟨e | _ | x, t⟩
  · rw [Prog.run_bind_of_error hinspect]
    rfl
  · rw [Prog.run_bind_of_ok hinspect]
    rfl
  · rw [Prog.run_bind_of_ok hinspect]
    dsimp only [goTo]
    rw [onHash, runUntil]
    dsimp only
    rcases hhash : (hashFile C x).run t with ⟨e | _ | contentHash, u⟩
    · rw [Prog.run_bind_of_error hhash]
      rfl
    · rw [Prog.run_bind_of_ok hhash]
      rfl
    · rw [Prog.run_bind_of_ok hhash]
      dsimp only [goTo]
      rw [onPack, runUntil]
      dsimp only
      rcases hpack : (watcher.packAndTrack C x contentHash).run u with ⟨e | result, v⟩
      · rw [Prog.run_bind_of_error hpack]
        rfl
      · rw [Prog.run_bind_of_ok hpack]
        rfl

end OmniDrive
