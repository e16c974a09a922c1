import OmniDrive.Access.Acl
import OmniDrive.Library.GuardedRuns
import OmniDrive.Storage.Database

/-!
# The trash

Soft deletion, restore and purge of files, and the sweeper that deletes what has been in the
trash for the grace period. The deletions cascade as the foreign keys of the schema say. The
handlers are modelled from after their role check.
-/

namespace OmniDrive

open StatementProgram Tables

/-- The file tables and the clock in milliseconds. -/
structure TrashWorld where
  db : FileDb := {}
  now : ℤ := 0

abbrev TrashProg (ε α : Type) := Prog TrashWorld ε α

variable {ε α : Type}

namespace Trash

/-- `SOFT_DELETE_GRACE_MS`. -/
def softDeleteGraceMs : ℤ := 7 * 24 * 60 * 60 * 1000

/-! ## `inodes.rs` -/

/-- The inode with an identifier. -/
def inodeOf (inodeId : ℤ) (db : FileDb) : Option InodeRecord := db.inodes.find? (·.id = inodeId)

def softDeleteInode (inodeId nowMs : ℤ) (db : FileDb) : FileDb :=
  { db with
    inodes := updateWhere (fun i => i.id = inodeId && i.kind = "FILE" && i.deletedAt.isNone)
      (fun i => { i with deletedAt := some nowMs }) db.inodes }

/-- An inode outside the trash has the path. -/
def pathTaken (parentId : Option ℤ) (name : String) (db : FileDb) : Bool :=
  db.inodes.any fun i => i.parentId = parentId && i.name = name && i.deletedAt.isNone

/-- Split at the last dot. -/
def rsplitOnce (s : String) : Option (String × String) :=
  let ext := (s.toList.reverse.takeWhile (· ≠ '.')).reverse
  if ext.length = s.toList.length then none
  else some (String.ofList (s.toList.take (s.toList.length - ext.length - 1)), String.ofList ext)

def restoredName (original : String) (attempt : ℕ) : String :=
  let (stem, ext) := match rsplitOnce original with
    | some (stem, ext) => if stem ≠ "" ∧ ext ≠ "" then (stem, "." ++ ext) else (original, "")
    | none => (original, "")
  if attempt = 1 then stem ++ " (restored)" ++ ext
  else stem ++ " (restored " ++ toString attempt ++ ")" ++ ext

/-- The two unique indexes on names refuse a restore under a name in use. -/
def restoreRefused (inodeId : ℤ) (name : String) (w : TrashWorld) : Option DbError :=
  match inodeOf inodeId w.db with
  | none => none
  | some row =>
    if w.db.inodes.any fun i => i.id ≠ inodeId && i.name = name &&
        ((i.parentId = row.parentId && i.parentId.isSome) ||
          (i.parentId.getD (-1) = row.parentId.getD (-1) && i.deletedAt.isNone))
    then some .uniqueViolation
    else none

/-- Take an inode out of the trash under the name; no row is no error. -/
def undelete (inodeId : ℤ) (name : String) (db : FileDb) : FileDb :=
  { db with
    inodes := updateWhere (·.id = inodeId) (fun i => { i with deletedAt := none, name }) db.inodes }

def undeleteStmt (inodeId : ℤ) (name : String) : TrashProg DbError Unit :=
  Prog.execUnless (restoreRefused inodeId name) fun w => { w with db := undelete inodeId name w.db }

/-- Look for a free name, at most the given number of times. -/
def searchName (inode : InodeRecord) : ℕ → String → ℕ → TrashProg DbError String
  | 0, _, _ => .fail .unavailable
  | more + 1, name, attempt => do
    let taken ← Prog.query fun w : TrashWorld => pathTaken inode.parentId name w.db
    if taken then searchName inode more (restoredName inode.name attempt) (attempt + 1)
    else pure name

/-- The update of a restore, and its result. -/
def finishRestore (inodeId : ℤ) (name : String) : TrashProg DbError String := do
  undeleteStmt inodeId name
  pure name

/-- The search loop has no bound in the source; here every bound is possible. -/
def restoreSoftDeletedInode (attempts : ℕ) (inodeId : ℤ) : TrashProg DbError String := do
  let inode ← Prog.query fun w : TrashWorld => inodeOf inodeId w.db
  let inode ← Prog.ofOption .rowNotFound inode
  let name ← searchName inode attempts inode.name 1
  finishRestore inodeId name

/-- The inodes whose grace period is over, by identifier. -/
def expiredSoftDeleted (cutoffMs : ℤ) (db : FileDb) : List ℤ :=
  orderBy id ((db.inodes.filter fun i => i.deletedAt.any (· < cutoffMs)).map (·.id))

/-! ## The hard delete -/

/-- The revision belongs to the inode. -/
def isRevisionOf (inodeId revisionId : ℤ) (db : FileDb) : Bool :=
  db.fileRevisions.any fun r => r.inodeId = inodeId && r.revisionId = revisionId

/-- The first statement of `delete_file_chunks`. -/
def deleteRefs (inodeId : ℤ) (db : FileDb) : FileDb :=
  { db with chunkRefs := deleteWhere (fun c => isRevisionOf inodeId c.revisionId db) db.chunkRefs }

/-- Forget the parent of a revision when that parent is deleted. -/
def dropParent (gone : ℤ → Bool) (r : FileRevisionRecord) : FileRevisionRecord :=
  { r with parentRevisionId := r.parentRevisionId.filter fun parent => !gone parent }

/-- The second statement of `delete_file_chunks`, with what it cascades to. -/
def deleteRevisions (inodeId : ℤ) (db : FileDb) : FileDb :=
  let gone := fun revisionId => isRevisionOf inodeId revisionId db
  { db with
    fileRevisions := (deleteWhere (·.inodeId = inodeId) db.fileRevisions).map (dropParent gone)
    chunkRefs := deleteWhere (fun c => gone c.revisionId) db.chunkRefs
    conflictEvents := (deleteWhere (fun e => gone e.winningRevisionId || gone e.losingRevisionId)
      db.conflictEvents).map fun e =>
        { e with
          materializedRevisionId := e.materializedRevisionId.filter fun r => !gone r } }

/-- The deletion of an inode, with what it cascades to. -/
def deleteInode (inodeId : ℤ) (db : FileDb) : FileDb :=
  let cascaded := deleteRevisions inodeId db
  { cascaded with
    inodes := deleteWhere (·.id = inodeId) cascaded.inodes
    conflictEvents := (deleteWhere (·.inodeId = inodeId) cascaded.conflictEvents).map fun e =>
      { e with materializedInodeId := e.materializedInodeId.filter (· ≠ inodeId) } }

/-- An inode with children cannot be deleted. -/
def hasChildren (inodeId : ℤ) (db : FileDb) : Bool :=
  db.inodes.any fun i => i.parentId = some inodeId && i.id ≠ inodeId

def deleteRefsStmt (inodeId : ℤ) : TrashProg ε Unit :=
  Prog.exec fun w => { w with db := deleteRefs inodeId w.db }

def deleteRevisionsStmt (inodeId : ℤ) : TrashProg ε Unit :=
  Prog.exec fun w => { w with db := deleteRevisions inodeId w.db }

def deleteFileChunks (inodeId : ℤ) : TrashProg ε Unit := do
  deleteRefsStmt inodeId
  deleteRevisionsStmt inodeId

def deleteInodeRecord (told : DbError → ε) (inodeId : ℤ) : TrashProg ε Unit :=
  Prog.execUnless
    (fun w => if hasChildren inodeId w.db then some (told .foreignKeyViolation) else none)
    fun w => { w with db := deleteInode inodeId w.db }

/-- The chunk references and revisions of an inode, and then the inode. -/
def hardDelete (told : DbError → ε) (inodeId : ℤ) : TrashProg ε Unit := do
  deleteFileChunks inodeId
  deleteInodeRecord told inodeId

/-! ## Handlers -/

inductive TrashResponse where
  | restored (inodeId : ℤ) (restoredName : String)
  | purged (inodeId : ℤ)
  deriving DecidableEq, Repr

def checkInTrash (inode : InodeRecord) : Except ApiError Unit :=
  if inode.deletedAt.isNone then .error (.conflict "inode is not in trash") else .ok ()

/-- The inode that the request names; none is an error. -/
def requireInTrash (inodeId : ℤ) : TrashProg ApiError Unit := do
  let inode ← Prog.query fun w : TrashWorld => inodeOf inodeId w.db
  let inode ← Prog.ofOption (.notFound "inode" (toString inodeId)) inode
  Prog.ofExcept (checkInTrash inode)

/-- The response of a restore. -/
def respondRestored (inodeId : ℤ) (p : TrashProg DbError String) :
    TrashProg ApiError TrashResponse := do
  let name ← p.mapError .database
  pure (.restored inodeId name)

def restoreTrash (attempts : ℕ) (inodeId : ℤ) : TrashProg ApiError TrashResponse := do
  requireInTrash inodeId
  respondRestored inodeId (restoreSoftDeletedInode attempts inodeId)

/-- The deletion of a purge, and its response. -/
def deleteAndRespond (inodeId : ℤ) : TrashProg ApiError TrashResponse := do
  hardDelete .database inodeId
  pure (.purged inodeId)

def purgeTrash (inodeId : ℤ) : TrashProg ApiError TrashResponse := do
  requireInTrash inodeId
  deleteAndRespond inodeId

/-! ## Runs -/

inductive TrashCall where
  | restore (inodeId : ℤ)
  | purge (inodeId : ℤ)
  deriving DecidableEq, Repr

/-- A call in flight and what is left of its handler. -/
structure TrashThread where
  call : TrashCall
  rest : TrashProg ApiError TrashResponse

/-- A sweep: the inode it is at, what is left of its hard delete and the inodes after it. -/
structure Sweep where
  inodeId : ℤ
  rest : TrashProg DbError Unit
  queue : List ℤ

/-- The identifiers of the revisions of an inode and their chunk references. -/
structure FileContents where
  revisions : List ℤ
  refs : List ChunkRefRecord
  deriving DecidableEq, Repr

def contentsOf (inodeId : ℤ) (db : FileDb) : FileContents :=
  { revisions := (db.fileRevisions.filter (·.inodeId = inodeId)).map (·.revisionId)
    refs := db.chunkRefs.filter fun c => isRevisionOf inodeId c.revisionId db }

/-- The tables with the calls in flight and the sweeper, and what an observer has noted: since
when each inode is in the trash, what it held when it went there, what a restore that returned
owes, and every chunk reference ever registered. -/
structure TrashRun where
  world : TrashWorld
  calls : List TrashThread := []
  sweep : Option Sweep := none
  since : ℤ → Option ℤ
  kept : ℤ → FileContents
  owed : ℤ → Option FileContents := fun _ => none
  registered : List ChunkRefRecord

def deletedAt (inodeId : ℤ) (db : FileDb) : Option ℤ := (inodeOf inodeId db).bind (·.deletedAt)

namespace TrashRun

/-- The run with another world; an observer notes which inodes have gone to the trash. -/
def observe (after : TrashWorld) (s : TrashRun) : TrashRun :=
  { s with
    world := after
    since := fun i => match deletedAt i s.world.db, deletedAt i after.db with
      | _, none => none
      | none, some _ => some after.now
      | some _, some _ => s.since i
    kept := fun i => match deletedAt i s.world.db, deletedAt i after.db with
      | none, some _ => contentsOf i after.db
      | _, _ => s.kept i }

/-- A delete or purge has been requested, so that nothing is owed. -/
def release (inodeId : ℤ) (s : TrashRun) : TrashRun :=
  { s with owed := Function.update s.owed inodeId none }

end TrashRun

namespace Sweep

/-- The deletions of the listed inodes one after the other. -/
def start : List ℤ → Option Sweep
  | [] => none
  | i :: queue => some ⟨i, hardDelete id i, queue⟩

/-- A deletion that has ended, well or not, is followed by the next. -/
def settle (sw : Sweep) : Option Sweep :=
  match sw.rest with
  | .stmt _ _ => some sw
  | _ => start sw.queue

end Sweep

/-- The steps of a run. -/
inductive TrashOp where
  | tick (ms : ℕ)
  | softDelete (inodeId : ℤ)
  | newRevision (inodeId size : ℤ) (immutableUntil : Option ℤ) (deviceId : Option String)
      (parentRevisionId : Option ℤ) (origin : String) (conflictReason : Option String)
  | registerChunk (revisionId : ℤ) (chunkId : Bytes) (offset size : ℤ)
  | callRestore (attempts : ℕ) (inodeId : ℤ)
  | callPurge (inodeId : ℤ)
  | resume (n : ℕ)
  | refuse (n : ℕ)
  | startSweep
  | resumeSweep
  | refuseSweep

/-- The database refuses a revision without its inode or with an unknown parent. -/
def revisionAllowed (inodeId : ℤ) (parentRevisionId : Option ℤ) (db : FileDb) : Bool :=
  (inodeOf inodeId db).isSome &&
    parentRevisionId.all fun parent => db.fileRevisions.any (·.revisionId = parent)

/-- The next statement of a call. -/
def resumeThread (n : ℕ) (t : TrashThread) (s : TrashRun) : TrashRun :=
  match t.rest with
  | .stmt upd next =>
    let s' := { s with calls := s.calls.set n { t with rest := next s.world } }.observe
      (upd s.world)
    match t.call, next s.world with
    | .restore i, .ret _ => { s' with owed := Function.update s'.owed i (some (s.kept i)) }
    | _, _ => s'
  | _ => s

/-- The next statement of the sweeper. -/
def resumeSweeper (s : TrashRun) : TrashRun :=
  match s.sweep with
  | some sw => match sw.rest with
    | .stmt upd next =>
      { s with sweep := { sw with rest := next s.world }.settle }.observe (upd s.world)
    | _ => s
  | none => s

def TrashOp.step (op : TrashOp) (s : TrashRun) : TrashRun :=
  match op with
  | .tick ms => s.observe { s.world with now := s.world.now + ms }
  | .softDelete i =>
    (s.observe { s.world with db := softDeleteInode i s.world.now s.world.db }).release i
  | .newRevision i size immutableUntil deviceId parent origin reason =>
    if revisionAllowed i parent s.world.db then
      s.observe { s.world with
        db := Db.appendRevision i size immutableUntil deviceId parent origin reason s.world.now
          (Db.clearCurrent i s.world.db) }
    else s
  | .registerChunk revisionId chunkId offset size =>
    if s.world.db.fileRevisions.any (·.revisionId = revisionId) then
      let db := Db.appendChunkRef revisionId chunkId offset size s.world.db
      { s.observe { s.world with db } with
        registered := s.registered ++ db.chunkRefs.drop s.world.db.chunkRefs.length }
    else s
  | .callRestore attempts i => { s with calls := s.calls ++ [⟨.restore i, restoreTrash attempts i⟩] }
  | .callPurge i =>
    TrashRun.release i { s with calls := s.calls ++ [⟨.purge i, purgeTrash i⟩] }
  | .resume n => match s.calls[n]? with
    | some t => resumeThread n t s
    | none => s
  | .refuse n => match s.calls[n]? with
    | some t => match t.rest with
      | .stmt _ _ =>
        { s with calls := s.calls.set n { t with rest := .fail (.database .unavailable) } }
      | _ => s
    | none => s
  | .startSweep => match s.sweep with
    | some _ => s
    | none =>
      { s with
        sweep := Sweep.start (expiredSoftDeleted (s.world.now - softDeleteGraceMs) s.world.db) }
  | .resumeSweep => resumeSweeper s
  | .refuseSweep => match s.sweep with
    | some sw => { s with sweep := Sweep.start sw.queue }
    | none => s

end Trash

end OmniDrive
