import OmniDrive.Storage.Database

/-!
# Conflict copies

When a write does not descend from the current revision, the current revision is first copied to
a file of its own beside the original.
-/

namespace OmniDrive

open StatementProgram Tables

variable {P : Primitives}

namespace Db

/-! ## `inodes.rs` -/

def validateInodeKind (kind : String) : Except DbError Unit :=
  if kind = "FILE" ∨ kind = "DIR" then .ok ()
  else .error (.invalidArgument s!"invalid inode kind '{kind}', expected FILE or DIR")

/-- Some row stands against a new one: deleted rows keep their names below a parent, and rows at
the root only while they are not deleted. -/
def nameTaken (parentId : Option ℤ) (name : String) (db : FileDb) : Bool :=
  db.inodes.any fun i => i.name = name &&
    (parentId.isSome && i.parentId = parentId ||
      i.deletedAt.isNone && i.parentId.getD (-1) = parentId.getD (-1))

/-- Add a row under the next automatic `id`. -/
def appendInode (parentId : Option ℤ) (name kind : String) (size : ℤ) (db : FileDb) : FileDb :=
  { db with
    inodes := db.inodes ++ [{ id := db.inodeSequence + 1, parentId, name, kind, size }]
    inodeSequence := db.inodeSequence + 1 }

def createInode (parentId : Option ℤ) (name kind : String) (size : ℤ) : FileProg P DbError ℤ := do
  Prog.ofExcept (validateInodeKind kind)
  -- the uniqueness check and the insertion are one statement
  let created ← Prog.execReturning
    (fun w => if nameTaken parentId name w.db then w
      else { w with db := appendInode parentId name kind size w.db })
    fun w => if nameTaken parentId name w.db then none else some (w.db.inodeSequence + 1)
  Prog.ofOption .uniqueViolation created

def getInodeById (inodeId : ℤ) : FileProg P DbError (Option InodeRecord) :=
  selectFiles fun db => db.inodes.find? (·.id = inodeId)

/-! ## `conflicts.rs` -/

/-- Add a row under the next automatic `conflict_id`. -/
def appendConflictEvent (inodeId winningRevisionId losingRevisionId : ℤ) (reason : String)
    (db : FileDb) : FileDb :=
  { db with
    conflictEvents := db.conflictEvents ++
      [{ conflictId := db.conflictSequence + 1, inodeId, winningRevisionId, losingRevisionId,
         reason }]
    conflictSequence := db.conflictSequence + 1 }

def createConflictEvent (inodeId winningRevisionId losingRevisionId : ℤ) (reason : String) :
    FileProg P DbError ℤ :=
  Prog.execReturning
    (fun w =>
      { w with db := appendConflictEvent inodeId winningRevisionId losingRevisionId reason w.db })
    fun w => w.db.conflictSequence + 1

/-- Record what a conflict was materialized as. -/
def setConflictMaterialization (conflictId inodeId revisionId : ℤ) (db : FileDb) : FileDb :=
  { db with
    conflictEvents := updateWhere (·.conflictId = conflictId)
      (fun e => { e with
        materializedInodeId := some inodeId, materializedRevisionId := some revisionId })
      db.conflictEvents }

def attachConflictMaterialization (conflictId materializedInodeId materializedRevisionId : ℤ) :
    FileProg P DbError Unit :=
  writeFiles (setConflictMaterialization conflictId materializedInodeId materializedRevisionId)

/-- Stem and extension, the extension with its dot; without both the whole name is the stem. -/
def splitFileName (name : String) : String × String :=
  let reversed := name.toList.reverse
  let extension := (reversed.takeWhile (· ≠ '.')).reverse
  let stem := ((reversed.dropWhile (· ≠ '.')).drop 1).reverse
  if stem ≠ [] ∧ extension ≠ [] then (String.ofList stem, "." ++ String.ofList extension)
  else (name, "")

def isControl (ch : Char) : Bool := ch.toNat < 32 || 127 ≤ ch.toNat && ch.toNat < 160

def sanitizeConflictComponent (value : String) : String :=
  value.map fun ch =>
    if ch ∈ ['<', '>', ':', '"', '/', '\\', '|', '?', '*'] then '_'
    else if isControl ch then '_' else ch

def buildConflictCopyName (originalName deviceName : String) (timestampMs : ℤ) : String :=
  let (stem, extension) := splitFileName originalName
  s!"{stem} (conflict - {sanitizeConflictComponent deviceName} - {timestampMs}){extension}"

def disambiguateConflictCopyName (baseName : String) (attempt : ℕ) : String :=
  let (stem, extension) := splitFileName baseName
  s!"{stem} [{attempt}]{extension}"

/-- Try the names from an attempt on, until one is free. -/
def createConflictInode (parentId : Option ℤ) (baseName kind : String) (size : ℤ) :
    ℕ → ℕ → FileProg P DbError (Option (ℤ × String))
  | 0, _ => pure none
  | left + 1, attempt => do
    let candidate := if attempt = 0 then baseName
      else disambiguateConflictCopyName baseName attempt
    match ← (createInode parentId candidate kind size).attempt with
    | .ok inodeId => pure (some (inodeId, candidate))
    | .error .uniqueViolation =>
      createConflictInode parentId baseName kind size left (attempt + 1)
    | .error err => .fail err

/-- The copied inode, its revision, its name and the conflict. -/
structure ConflictCopy where
  inodeId : ℤ
  revisionId : ℤ
  name : String
  conflictId : ℤ
  deriving DecidableEq, Repr

def materializeConflictCopyFromRevision (sourceRevisionId : ℤ) (deviceId : Option String)
    (deviceName reason : String) : FileProg P DbError ConflictCopy := do
  let source ← selectFiles fun db => db.fileRevisions.find? (·.revisionId = sourceRevisionId)
  let source ← Prog.ofOption .rowNotFound source
  let sourceInode ← getInodeById source.inodeId
  let sourceInode ← Prog.ofOption .rowNotFound sourceInode
  let baseName := buildConflictCopyName sourceInode.name deviceName source.createdAt
  let created ← createConflictInode sourceInode.parentId baseName sourceInode.kind source.size 16 0
  let (inodeId, name) ← Prog.ofOption .rowNotFound created
  let revisionId ← createFileRevision inodeId source.size source.immutableUntil deviceId
    (some source.revisionId) "conflict_copy" (some reason)
  copyChunkRefs source.revisionId revisionId
  let conflictId ← createConflictEvent source.inodeId source.revisionId revisionId reason
  attachConflictMaterialization conflictId inodeId revisionId
  pure { inodeId, revisionId, name, conflictId }

end Db

end OmniDrive
