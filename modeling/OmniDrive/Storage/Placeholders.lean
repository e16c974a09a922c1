import Mathlib.Logic.Function.Basic
import OmniDrive.Library.GuardedRuns
import OmniDrive.Storage.Projection

/-!
# Placeholders of the sync root

A projection run records the current revision of every file in `smart_sync_state` and then points
the file's placeholder at it. The recorded revision of the run before decides whether an existing
placeholder is repointed, and it is overwritten before the calls that may fail.
-/

namespace OmniDrive

open GuardedRuns Tables

/-! ## The vault and the sync root -/

structure CurrentRevision where
  revisionId : ℤ
  size : ℤ
  createdAt : ℤ

/-- A file of the vault with the path it is projected at and its current revision, if it has one. -/
structure VaultFile where
  inodeId : ℤ
  path : String
  current : Option CurrentRevision

structure SmartSyncStateRecord where
  inodeId : ℤ
  revisionId : ℤ
  pinState : ℤ
  hydrationState : ℤ

/-- What the file system keeps of a placeholder: the identity blob, the size and the two marks. -/
structure Placeholder where
  inodeId : ℤ
  revisionId : ℤ
  size : ℤ
  fileTime : ℤ
  pinned : Bool
  inSync : Bool

/-- The files of the vault, with their key. -/
structure VaultFiles where
  files : List VaultFile
  inodeId_nodup : (files.map (·.inodeId)).Nodup

/-- The vault's files, the table `smart_sync_state` by its key, and the placeholders that exist. -/
structure SyncRootWorld extends VaultFiles where
  smartSyncState : ℤ → Option SmartSyncStateRecord
  placeholders : ℤ → Option Placeholder

def VaultFile.toRecord (file : VaultFile) : Option ProjectionFileRecord :=
  file.current.map fun current =>
    { inodeId := file.inodeId, path := file.path, revisionId := current.revisionId,
      size := current.size, createdAt := current.createdAt }

theorem VaultFile.inodeId_of_toRecord {file : VaultFile} {record : ProjectionFileRecord}
    (h : file.toRecord = some record) : record.inodeId = file.inodeId := by
  obtain ⟨current, -, rfl⟩ := Option.map_eq_some_iff.mp h
  rfl

namespace SyncRootWorld

/-- The files that `get_active_files_for_projection` lists. -/
def activeFiles (w : SyncRootWorld) : List ProjectionFileRecord :=
  orderBy (·.path) (w.files.filterMap VaultFile.toRecord)

theorem activeFiles_nodup (w : SyncRootWorld) : (w.activeFiles.map (·.inodeId)).Nodup := by
  have hperm : (w.activeFiles.map (·.inodeId)).Perm
      ((w.files.filterMap VaultFile.toRecord).map (·.inodeId)) :=
    (orderBy_perm _ _).map _
  have hids : (w.files.filterMap VaultFile.toRecord).map (·.inodeId) =
      (w.files.filter fun file => file.current.isSome).map (·.inodeId) := by
    induction w.files with
    | nil => rfl
    | cons file rest ih =>
      cases hcurrent : file.current with
      | none => simp [VaultFile.toRecord, hcurrent, ih]
      | some current => simp [VaultFile.toRecord, hcurrent, ih]
  rw [hperm.nodup_iff, hids]
  exact (w.inodeId_nodup).sublist ((List.filter_sublist).map _)

end SyncRootWorld

/-! ## The calls of one projection -/

inductive SmartSyncError where
  | io
  | sqlx
  | invalidPath (reason : String)
  | invalidPathWithContext (step : String)
  | windows
  deriving DecidableEq

def normalizeRelativePlaceholderPath (path : String) : Except SmartSyncError String :=
  let normalized := Backup.trim (trimStartMatches '/' (slashed path))
  if normalized = "" then .error (.invalidPath "placeholder path cannot be empty")
  else if (normalized.toList.splitOn '/').any fun segment =>
      segment = [] || segment = ['.'] || segment = ['.', '.'] || segment.contains ':' then
    .error (.invalidPath "placeholder path contains invalid segments")
  else .ok (String.ofList (normalized.toList.map fun c => if c = '/' then '\\' else c))

def WINDOWS_EPOCH_OFFSET_SECS : ℤ := 11644473600

/-- In steps of 100 ns, which have to fit an `i64`. -/
def fileTimeFromUnixMillis (unixMillis : ℤ) : Except SmartSyncError ℤ :=
  let ticks := (unixMillis / 1000 + WINDOWS_EPOCH_OFFSET_SECS) * 10000000 + unixMillis % 1000 * 10000
  if unixMillis < 0 then .error (.invalidPath "negative unix timestamp")
  else if 2 ^ 63 ≤ ticks then .error (.invalidPath "timestamp overflow")
  else .ok ticks

/-- The statements and calls that fail in the projection of one file. -/
structure ProjectionFaults where
  readState : Bool := false
  insertState : Bool := false
  readBack : Bool := false
  chain : Bool := false
  create : Bool := false
  update : Bool := false
  pin : Bool := false
  inSync : Bool := false

/-- The placeholder after it was created or, if `revision_changed`, repointed. -/
def pointPlaceholder (file : ProjectionFileRecord) (fileTime : ℤ) (revisionChanged : Bool)
    (faults : ProjectionFaults) : Option Placeholder → Except SmartSyncError Placeholder
  | none =>
    if faults.create then .error .windows
    else .ok { inodeId := file.inodeId, revisionId := file.revisionId, size := file.size,
               fileTime := fileTime, pinned := false, inSync := false }
  | some placeholder =>
    if revisionChanged then
      if faults.update then .error (.invalidPathWithContext "update_placeholder_revision")
      else .ok { placeholder with
        inodeId := file.inodeId, revisionId := file.revisionId, size := file.size,
        fileTime := fileTime, inSync := true }
    else .ok placeholder

/-- The statements up to the repointing, all of which end the call where they fail. -/
def pointedPlaceholder (file : ProjectionFileRecord) (revisionChanged : Bool)
    (faults : ProjectionFaults) (placeholder : Option Placeholder) :
    Except SmartSyncError Placeholder := do
  let _ ← normalizeRelativePlaceholderPath file.path
  let fileTime ← fileTimeFromUnixMillis file.createdAt
  if faults.chain then throw (.invalidPathWithContext "ensure_placeholder_directory_chain")
  pointPlaceholder file fileTime revisionChanged faults placeholder

/-- The outcome and the placeholder that is left. A failed `mark_in_sync` is only a warning. -/
def createProjectionPlaceholder (file : ProjectionFileRecord) (pinned revisionChanged : Bool)
    (faults : ProjectionFaults) (placeholder : Option Placeholder) :
    Except SmartSyncError Unit × Option Placeholder :=
  match pointedPlaceholder file revisionChanged faults placeholder with
  | .error e => (.error e, placeholder)
  | .ok pointed =>
    if faults.pin then (.error (.invalidPathWithContext "apply_pin_state"), some pointed)
    else (.ok (), some { pointed with pinned := pinned, inSync := pointed.inSync || !faults.inSync })

/-! ## A projection run -/

namespace SyncRootWorld

variable (w : SyncRootWorld)

/-- Insert the row, or overwrite the revision of the one there is. -/
def ensureSmartSyncState (inodeId revisionId : ℤ) : SyncRootWorld :=
  { w with
    smartSyncState := Function.update w.smartSyncState inodeId <| some <|
      match w.smartSyncState inodeId with
      | none => { inodeId, revisionId, pinState := 0, hydrationState := 0 }
      | some state => { state with revisionId } }

/-- The projection of one file. An error of the database ends the run, a failed call of
`create_projection_placeholder` is counted. -/
def projectFile (file : ProjectionFileRecord) (faults : ProjectionFaults) :
    Except SmartSyncError (Except SmartSyncError Unit) × SyncRootWorld :=
  if faults.readState then (.error .sqlx, w)
  else if faults.insertState then (.error .sqlx, w)
  else
    let projectedRevision := (w.smartSyncState file.inodeId).map (·.revisionId)
    let ensured := w.ensureSmartSyncState file.inodeId file.revisionId
    if faults.readBack then (.error .sqlx, ensured)
    else
      let pinned := (ensured.smartSyncState file.inodeId).any (·.pinState != 0)
      let revisionChanged := projectedRevision.any (· != file.revisionId)
      let created := createProjectionPlaceholder file pinned revisionChanged faults
        (w.placeholders file.inodeId)
      (.ok created.1,
        { ensured with
          placeholders := Function.update w.placeholders file.inodeId created.2 })

/-- The loop over the files, with the number of those that failed. -/
def projectFiles (faults : ℤ → ProjectionFaults) : List ProjectionFileRecord → SyncRootWorld →
    Except SmartSyncError ℕ × SyncRootWorld
  | [], w => (.ok 0, w)
  | file :: rest, w =>
    match (w.projectFile file (faults file.inodeId)).1 with
    | .error e => (.error e, (w.projectFile file (faults file.inodeId)).2)
    | .ok created =>
      let later := projectFiles faults rest (w.projectFile file (faults file.inodeId)).2
      (later.1.map fun failed => (if created.isOk then 0 else 1) + failed, later.2)

end SyncRootWorld

/-- What fails in a run: the look at the sync root and the query before the loop, or something in
the projection of a file. -/
structure RunFaults where
  listing : Bool := false
  file : ℤ → ProjectionFaults := fun _ => {}

def projectVaultToSyncRoot (faults : RunFaults) (w : SyncRootWorld) :
    Except SmartSyncError ℕ × SyncRootWorld :=
  if faults.listing then (.error .io, w)
  else SyncRootWorld.projectFiles faults.file w.activeFiles w

/-! ## What is recorded of a file and what its placeholder points at -/

namespace SyncRootWorld

variable (w : SyncRootWorld)

/-- The revision that `smart_sync_state` records for an inode. -/
def recorded (inodeId : ℤ) : Option ℤ := (w.smartSyncState inodeId).map (·.revisionId)

/-- The revision that the placeholder of an inode points at, if it exists. -/
def pointsAt (inodeId : ℤ) : Option ℤ := (w.placeholders inodeId).map (·.revisionId)

end SyncRootWorld

/-- Nothing in front of the repointing fails. -/
def ReachesPlaceholder (file : ProjectionFileRecord) (faults : ProjectionFaults) : Prop :=
  (normalizeRelativePlaceholderPath file.path).isOk ∧ (fileTimeFromUnixMillis file.createdAt).isOk ∧
    faults.chain = false

instance (file : ProjectionFileRecord) (faults : ProjectionFaults) :
    Decidable (ReachesPlaceholder file faults) := instDecidableAnd

theorem pointedPlaceholder_of_reaches {file : ProjectionFileRecord} {faults : ProjectionFaults}
    (h : ReachesPlaceholder file faults) (revisionChanged : Bool)
    (placeholder : Option Placeholder) :
    ∃ fileTime, pointedPlaceholder file revisionChanged faults placeholder =
      pointPlaceholder file fileTime revisionChanged faults placeholder := by
  obtain ⟨hpath, htime, hchain⟩ := h
  unfold pointedPlaceholder
  generalize normalizeRelativePlaceholderPath file.path = path at hpath
  generalize fileTimeFromUnixMillis file.createdAt = time at htime
  cases path with
  | error e => cases hpath
  | ok path =>
    cases time with
    | error e => cases htime
    | ok fileTime => exact ⟨fileTime, by simp [bind, Except.bind, hchain]⟩

theorem pointedPlaceholder_of_not_reaches {file : ProjectionFileRecord} {faults : ProjectionFaults}
    (h : ¬ ReachesPlaceholder file faults) (revisionChanged : Bool)
    (placeholder : Option Placeholder) :
    ∃ e, pointedPlaceholder file revisionChanged faults placeholder = .error e := by
  unfold ReachesPlaceholder at h
  unfold pointedPlaceholder
  generalize normalizeRelativePlaceholderPath file.path = path at h
  generalize fileTimeFromUnixMillis file.createdAt = time at h
  cases path with
  | error e => exact ⟨e, rfl⟩
  | ok path =>
    cases time with
    | error e => exact ⟨e, rfl⟩
    | ok fileTime =>
      have hchain : faults.chain = true := by simpa [Except.isOk, Except.toBool] using h
      exact ⟨_, by simp [bind, Except.bind, hchain, throw, throwThe, MonadExceptOf.throw]; rfl⟩

/-- The revision a placeholder points at behind one call. -/
def pointedRevision (file : ProjectionFileRecord) (revisionChanged : Bool)
    (faults : ProjectionFaults) (revision : Option ℤ) : Option ℤ :=
  if ReachesPlaceholder file faults then
    match revision with
    | none => if faults.create then none else some file.revisionId
    | some revision =>
      if revisionChanged && !faults.update then some file.revisionId else some revision
  else revision

/-- A call changes the revision of the placeholder in no other way. -/
theorem createProjectionPlaceholder_revision (file : ProjectionFileRecord)
    (pinned revisionChanged : Bool) (faults : ProjectionFaults) (placeholder : Option Placeholder) :
    (createProjectionPlaceholder file pinned revisionChanged faults placeholder).2.map
        (·.revisionId) =
      pointedRevision file revisionChanged faults (placeholder.map (·.revisionId)) := by
  unfold createProjectionPlaceholder
  by_cases h : ReachesPlaceholder file faults
  · obtain ⟨fileTime, hpointed⟩ := pointedPlaceholder_of_reaches h revisionChanged placeholder
    rw [pointedRevision.eq_def, if_pos h, hpointed]
    cases placeholder with
    | none => cases hcreate : faults.create <;> cases faults.pin <;> simp [pointPlaceholder, hcreate]
    | some placeholder =>
      cases revisionChanged <;> cases hupdate : faults.update <;> cases faults.pin <;>
        simp [pointPlaceholder, hupdate]
  · obtain ⟨e, hpointed⟩ := pointedPlaceholder_of_not_reaches h revisionChanged placeholder
    rw [pointedRevision.eq_def, if_neg h, hpointed]

namespace SyncRootWorld

/-- The statement that overwrites the recorded revision is reached. -/
def Records (faults : ProjectionFaults) : Prop :=
  faults.readState = false ∧ faults.insertState = false

instance (faults : ProjectionFaults) : Decidable (Records faults) :=
  inferInstanceAs (Decidable (_ ∧ _))

variable (w : SyncRootWorld) (file : ProjectionFileRecord) (faults : ProjectionFaults)

theorem recorded_projectFile :
    (w.projectFile file faults).2.recorded file.inodeId =
      if Records faults then some file.revisionId else w.recorded file.inodeId := by
  cases hread : faults.readState with
  | true => simp [projectFile, Records, hread]
  | false =>
    cases hinsert : faults.insertState with
    | true => simp [projectFile, Records, hread, hinsert]
    | false =>
      cases hstate : w.smartSyncState file.inodeId <;> cases hback : faults.readBack <;>
        simp [projectFile, Records, hread, hinsert, hback, recorded, ensureSmartSyncState, hstate]

theorem pointsAt_projectFile :
    (w.projectFile file faults).2.pointsAt file.inodeId =
      if Records faults ∧ faults.readBack = false then
        pointedRevision file ((w.recorded file.inodeId).any (· != file.revisionId)) faults
          (w.pointsAt file.inodeId)
      else w.pointsAt file.inodeId := by
  cases hread : faults.readState with
  | true => simp [projectFile, Records, hread]
  | false =>
    cases hinsert : faults.insertState with
    | true => simp [projectFile, Records, hread, hinsert]
    | false =>
      cases hback : faults.readBack with
      | true =>
        simp [projectFile, Records, hread, hinsert, hback, pointsAt, ensureSmartSyncState]
      | false =>
        simp [projectFile, Records, hread, hinsert, hback, pointsAt, recorded,
          createProjectionPlaceholder_revision]

/-- The projection of a file leaves all others alone. -/
theorem projectFile_other {inodeId : ℤ} (h : inodeId ≠ file.inodeId) :
    (w.projectFile file faults).2.recorded inodeId = w.recorded inodeId ∧
      (w.projectFile file faults).2.pointsAt inodeId = w.pointsAt inodeId := by
  cases hread : faults.readState <;> cases hinsert : faults.insertState <;>
    cases hback : faults.readBack <;>
    simp [projectFile, hread, hinsert, hback, recorded, pointsAt, ensureSmartSyncState, h]

theorem projectFile_files : (w.projectFile file faults).2.files = w.files := by
  cases hread : faults.readState <;> cases hinsert : faults.insertState <;>
    cases hback : faults.readBack <;> simp [projectFile, hread, hinsert, hback, ensureSmartSyncState]

/-- The database lets the run go on behind a file exactly if it fails none of its statements. -/
theorem projectFile_isOk :
    (w.projectFile file faults).1.isOk = true ↔ Records faults ∧ faults.readBack = false := by
  cases hread : faults.readState <;> cases hinsert : faults.insertState <;>
    cases hback : faults.readBack <;>
    simp [projectFile, Records, hread, hinsert, hback, Except.isOk, Except.toBool]

variable {w file faults}

/-! ## One file -/

/-- The placeholder of every file points at the revision that is recorded of it. -/
def Agrees (w : SyncRootWorld) : Prop :=
  ∀ inodeId recorded revision, w.recorded inodeId = some recorded →
    w.pointsAt inodeId = some revision → revision = recorded

/-- If the recorded revision is overwritten while the placeholder points at another one, there was
a recorded revision and nothing fails up to the repointing. -/
def Repoints (file : ProjectionFileRecord) (faults : ProjectionFaults) (w : SyncRootWorld) : Prop :=
  Records faults → ∀ revision, w.pointsAt file.inodeId = some revision →
    revision ≠ file.revisionId →
    w.recorded file.inodeId ≠ none ∧ faults.readBack = false ∧ ReachesPlaceholder file faults ∧
      faults.update = false

/-- The current revision is recorded and the placeholder points at another one. -/
def Stale (file : ProjectionFileRecord) (w : SyncRootWorld) : Prop :=
  w.recorded file.inodeId = some file.revisionId ∧
    ∃ revision, w.pointsAt file.inodeId = some revision ∧ revision ≠ file.revisionId

/-- A new placeholder points at the current revision. -/
theorem pointsAt_created (hpoints : w.pointsAt file.inodeId = none) {revision : ℤ}
    (h : (w.projectFile file faults).2.pointsAt file.inodeId = some revision) :
    Records faults ∧ revision = file.revisionId := by
  rw [pointsAt_projectFile, hpoints, pointedRevision.eq_def] at h
  by_cases hrun : Records faults ∧ faults.readBack = false
  · by_cases hreach : ReachesPlaceholder file faults
    · cases hcreate : faults.create with
      | true => simp [hrun, hreach, hcreate] at h
      | false => exact ⟨hrun.1, by simpa [hrun, hreach, hcreate] using h.symm⟩
    · simp [hrun, hreach] at h
  · simp [hrun] at h

/-- An existing placeholder changes only if another revision was recorded, and then points at the
current one. -/
theorem pointsAt_existing {revision : ℤ} (hpoints : w.pointsAt file.inodeId = some revision) :
    (w.projectFile file faults).2.pointsAt file.inodeId =
      some (if (Records faults ∧ faults.readBack = false) ∧ ReachesPlaceholder file faults ∧
          (w.recorded file.inodeId).any (· != file.revisionId) ∧ faults.update = false
        then file.revisionId else revision) := by
  rw [pointsAt_projectFile, hpoints, pointedRevision.eq_def]
  by_cases hrun : Records faults ∧ faults.readBack = false
  · by_cases hreach : ReachesPlaceholder file faults
    · cases (w.recorded file.inodeId).any (· != file.revisionId) <;> cases faults.update <;>
        simp [hrun, hreach]
    · simp [hrun, hreach]
  · simp [hrun]

theorem Agrees.projectFile (h : w.Agrees) (hfile : Repoints file faults w) :
    (w.projectFile file faults).2.Agrees := by
  intro inodeId recorded revision hrecorded hrevision
  by_cases hid : inodeId = file.inodeId
  · subst hid
    rw [recorded_projectFile] at hrecorded
    cases hpoints : w.pointsAt file.inodeId with
    | none =>
      have hcreated := pointsAt_created hpoints hrevision
      rw [if_pos hcreated.1, Option.some.injEq] at hrecorded
      rw [hcreated.2, hrecorded]
    | some old =>
      rw [pointsAt_existing hpoints, Option.some.injEq] at hrevision
      by_cases hrec : Records faults
      · rw [if_pos hrec, Option.some.injEq] at hrecorded
        by_cases hold : old = file.revisionId
        · rw [← hrevision, ← hrecorded, hold, ite_self]
        · obtain ⟨hsome, hback, hreach, hupdate⟩ := hfile hrec old hpoints hold
          obtain ⟨before, hbefore⟩ := Option.ne_none_iff_exists'.mp hsome
          have hchanged : (w.recorded file.inodeId).any (· != file.revisionId) = true := by
            simpa [hbefore, ← h _ _ _ hbefore hpoints] using hold
          rw [if_pos ⟨⟨hrec, hback⟩, hreach, hchanged, hupdate⟩] at hrevision
          rw [← hrevision, hrecorded]
      · rw [if_neg hrec] at hrecorded
        rw [if_neg fun hall => hrec hall.1.1] at hrevision
        rw [← hrevision, h _ _ _ hrecorded hpoints]
  · obtain ⟨hrec, hpoint⟩ := w.projectFile_other file faults hid
    rw [hrec] at hrecorded
    rw [hpoint] at hrevision
    exact h inodeId recorded revision hrecorded hrevision

/-- Where a projection fails so, the placeholder is stale. -/
theorem stale_projectFile (hfile : ¬ Repoints file faults w) :
    Stale file (w.projectFile file faults).2 := by
  unfold Repoints at hfile
  push Not at hfile
  obtain ⟨hrec, old, hpoints, hold, hno⟩ := hfile
  refine ⟨by rw [recorded_projectFile, if_pos hrec], old, ?_, hold⟩
  rw [pointsAt_existing hpoints, if_neg]
  intro hall
  have hsome : w.recorded file.inodeId ≠ none := by
    intro hnone
    simp [hnone] at hall
  exact hno hsome hall.1.2 hall.2.1 hall.2.2.2

/-- A stale placeholder stays as it is, whatever is projected. -/
theorem Stale.projectFile {other : ProjectionFileRecord} (h : Stale file w)
    (hother : other.inodeId = file.inodeId → other = file) :
    Stale file (w.projectFile other faults).2 := by
  obtain ⟨hrecorded, old, hpoints, hold⟩ := h
  by_cases hid : file.inodeId = other.inodeId
  · obtain rfl := hother hid.symm
    refine ⟨?_, old, ?_, hold⟩
    · rw [recorded_projectFile, hrecorded, ite_self]
    · rw [pointsAt_existing hpoints, if_neg]
      simp [hrecorded]
  · obtain ⟨hrec, hpoint⟩ := w.projectFile_other other faults hid
    exact ⟨hrec.trans hrecorded, old, hpoint.trans hpoints, hold⟩

/-! ## One run -/

/-- Every file that the loop reaches meets a condition in the world it finds. -/
def everyReached (faults : ℤ → ProjectionFaults)
    (cond : ProjectionFileRecord → ProjectionFaults → SyncRootWorld → Prop) :
    List ProjectionFileRecord → SyncRootWorld → Prop
  | [], _ => True
  | file :: rest, w =>
    cond file (faults file.inodeId) w ∧
      ((w.projectFile file (faults file.inodeId)).1.isOk → everyReached faults cond rest
        (w.projectFile file (faults file.inodeId)).2)

variable {faults : ℤ → ProjectionFaults} {files : List ProjectionFileRecord}

/-- What the loop leaves behind its first file. -/
theorem projectFiles_cons (faults : ℤ → ProjectionFaults) (file : ProjectionFileRecord)
    (rest : List ProjectionFileRecord) (w : SyncRootWorld) :
    (projectFiles faults (file :: rest) w).2 =
      if (w.projectFile file (faults file.inodeId)).1.isOk then
        (projectFiles faults rest (w.projectFile file (faults file.inodeId)).2).2
      else (w.projectFile file (faults file.inodeId)).2 := by
  rw [projectFiles]
  cases (w.projectFile file (faults file.inodeId)).1 <;> rfl

theorem projectFiles_files (faults : ℤ → ProjectionFaults) (files : List ProjectionFileRecord)
    (w : SyncRootWorld) : (projectFiles faults files w).2.files = w.files := by
  induction files generalizing w with
  | nil => rfl
  | cons file rest ih =>
    rw [projectFiles_cons]
    split
    · rw [ih, projectFile_files]
    · rw [projectFile_files]

/-- The loop leaves the recorded revision of a file that it does not list alone. -/
theorem projectFiles_other {inodeId : ℤ} (h : ∀ file ∈ files, file.inodeId ≠ inodeId) :
    (projectFiles faults files w).2.recorded inodeId = w.recorded inodeId := by
  induction files generalizing w with
  | nil => rfl
  | cons file rest ih =>
    have hhead := (w.projectFile_other file (faults file.inodeId)
      (h file List.mem_cons_self).symm).1
    rw [projectFiles_cons]
    split
    · rw [ih fun file' hfile' => h file' (List.mem_cons_of_mem _ hfile'), hhead]
    · exact hhead

theorem Agrees.projectFiles (h : w.Agrees) (hfiles : everyReached faults Repoints files w) :
    (projectFiles faults files w).2.Agrees := by
  induction files generalizing w with
  | nil => exact h
  | cons file rest ih =>
    have hhead := h.projectFile hfiles.1
    rw [projectFiles_cons]
    split
    · exact ih hhead (hfiles.2 ‹_›)
    · exact hhead

theorem Stale.projectFiles (h : Stale file w)
    (hfiles : ∀ other ∈ files, other.inodeId = file.inodeId → other = file) :
    Stale file (projectFiles faults files w).2 := by
  induction files generalizing w with
  | nil => exact h
  | cons other rest ih =>
    have hhead : Stale file (w.projectFile other (faults other.inodeId)).2 :=
      h.projectFile (hfiles other List.mem_cons_self)
    rw [projectFiles_cons]
    split
    · exact ih hhead fun o ho => hfiles o (List.mem_cons_of_mem _ ho)
    · exact hhead

/-- A run in which a projection fails so leaves a stale placeholder. -/
theorem stale_projectFiles (hnodup : (files.map (·.inodeId)).Nodup)
    (hfiles : ¬ everyReached faults Repoints files w) :
    ∃ file ∈ files, Stale file (projectFiles faults files w).2 := by
  induction files generalizing w with
  | nil => exact absurd trivial hfiles
  | cons file rest ih =>
    rw [List.map_cons, List.nodup_cons] at hnodup
    rw [projectFiles_cons]
    by_cases hhead : Repoints file (faults file.inodeId) w
    · have htail : (w.projectFile file (faults file.inodeId)).1.isOk ∧
          ¬ everyReached faults Repoints rest (w.projectFile file (faults file.inodeId)).2 := by
        by_contra hno
        exact hfiles ⟨hhead, fun hok => by_contra fun hrest => hno ⟨hok, hrest⟩⟩
      obtain ⟨stale, hmem, hstale⟩ := ih hnodup.2 htail.2
      rw [if_pos htail.1]
      exact ⟨stale, List.mem_cons_of_mem _ hmem, hstale⟩
    · have hstale : Stale file (w.projectFile file (faults file.inodeId)).2 :=
        stale_projectFile hhead
      refine ⟨file, List.mem_cons_self, ?_⟩
      split
      · apply hstale.projectFiles
        intro other hother hid
        exact absurd (hid ▸ List.mem_map_of_mem hother) hnodup.1
      · exact hstale

theorem projectFiles_ok_cons {file : ProjectionFileRecord} {rest : List ProjectionFileRecord}
    {failed : ℕ} (hok : (projectFiles faults (file :: rest) w).1 = .ok failed) :
    (w.projectFile file (faults file.inodeId)).1.isOk ∧
      ∃ n, (projectFiles faults rest (w.projectFile file (faults file.inodeId)).2).1 = .ok n := by
  cases hcall : (w.projectFile file (faults file.inodeId)).1 with
  | error e => simp [projectFiles, hcall] at hok
  | ok created =>
    cases hlater : (projectFiles faults rest (w.projectFile file (faults file.inodeId)).2).1 with
    | error e => simp [projectFiles, hcall, hlater, Except.map] at hok
    | ok n => exact ⟨rfl, n, rfl⟩

/-- A run that the database does not end records the current revision of every file. -/
theorem recorded_projectFiles (hnodup : (files.map (·.inodeId)).Nodup) {failed : ℕ}
    (hok : (projectFiles faults files w).1 = .ok failed) :
    ∀ file ∈ files, (projectFiles faults files w).2.recorded file.inodeId =
      some file.revisionId := by
  induction files generalizing w failed with
  | nil => simp
  | cons file rest ih =>
    rw [List.map_cons, List.nodup_cons] at hnodup
    obtain ⟨hhead, n, hn⟩ := projectFiles_ok_cons hok
    rw [projectFiles_cons, if_pos hhead]
    intro f hf
    cases List.mem_cons.mp hf with
    | inl heq =>
      subst heq
      rw [projectFiles_other, recorded_projectFile, if_pos ((projectFile_isOk _ _ _).mp hhead).1]
      intro other hother hid
      exact hnodup.1 (hid ▸ List.mem_map_of_mem hother)
    | inr hmem => exact ih hnodup.2 hn f hmem

end SyncRootWorld

/-! ## Sequences of runs -/

/-- What happens to the vault and its sync root. A file whose versions are not kept loses all its
revisions before it gets the next, and the row of `smart_sync_state` with them. -/
inductive SyncRootOp where
  | newRevision (inodeId : ℤ) (current : CurrentRevision)
  | deleteRevisions (inodeId : ℤ)
  | run (faults : RunFaults)

namespace SyncRootWorld

def setCurrent (w : SyncRootWorld) (inodeId : ℤ) (current : Option CurrentRevision) :
    SyncRootWorld :=
  { w with
    files := w.files.map fun file =>
      if file.inodeId = inodeId then { file with current := current } else file
    inodeId_nodup := by
      have hids : (w.files.map fun file =>
          if file.inodeId = inodeId then { file with current := current } else file).map
            (·.inodeId) = w.files.map (·.inodeId) := by
        rw [List.map_map]
        congr 1
        funext file
        simp only [Function.comp_apply]
        split <;> rfl
      exact hids ▸ w.inodeId_nodup }

end SyncRootWorld

def SyncRootOp.apply : SyncRootOp → SyncRootWorld → SyncRootWorld
  | .newRevision inodeId current, w => w.setCurrent inodeId (some current)
  | .deleteRevisions inodeId, w =>
    { w.setCurrent inodeId none with
      smartSyncState := Function.update w.smartSyncState inodeId none }
  | .run faults, w => (projectVaultToSyncRoot faults w).2

namespace SyncRootWorld

/-- A vault before its first projection. -/
def start (vault : VaultFiles) : SyncRootWorld :=
  { vault with smartSyncState := fun _ => none, placeholders := fun _ => none }

/-- A run in which nothing fails would point the placeholder of a file at its current revision. -/
def WillRepoint (w : SyncRootWorld) (inodeId : ℤ) : Prop :=
  ∃ file ∈ w.activeFiles, file.inodeId = inodeId ∧
    (projectVaultToSyncRoot {} w).2.pointsAt inodeId = some file.revisionId

/-- Every existing placeholder points at the recorded revision, or the next run repoints it. -/
def NoneStale (w : SyncRootWorld) : Prop :=
  ∀ inodeId recorded revision, w.recorded inodeId = some recorded →
    w.pointsAt inodeId = some revision → revision = recorded ∨ w.WillRepoint inodeId

/-- Behind a run in which no call fails, every existing placeholder points at the current
revision. -/
def RunPoints : SyncRootOp → SyncRootWorld → Prop
  | .run faults, w => (projectVaultToSyncRoot faults w).1 = .ok 0 → ∀ file ∈ w.activeFiles,
      ∀ revision, (projectVaultToSyncRoot faults w).2.pointsAt file.inodeId = some revision →
        revision = file.revisionId
  | _, _ => True

/-- In a run, every file that is reached is repointed where that is due. -/
def RunRepoints : SyncRootOp → SyncRootWorld → Prop
  | .run faults, w => faults.listing = false → everyReached faults.file Repoints w.activeFiles w
  | _, _ => True

variable {w : SyncRootWorld}

theorem Agrees.noneStale (h : w.Agrees) : w.NoneStale := by
  intro inodeId recorded revision hrecorded hrevision
  exact .inl (h inodeId recorded revision hrecorded hrevision)

theorem Agrees.apply (o : SyncRootOp) (h : w.Agrees) (ho : RunRepoints o w) :
    (o.apply w).Agrees := by
  cases o with
  | newRevision inodeId current => exact h
  | deleteRevisions inodeId =>
    intro i recorded revision hrecorded hrevision
    by_cases hid : i = inodeId
    · simp [SyncRootOp.apply, SyncRootWorld.recorded, hid] at hrecorded
    · apply h i recorded revision _ hrevision
      simpa [SyncRootOp.apply, SyncRootWorld.recorded, hid] using hrecorded
  | run faults =>
    simp only [SyncRootOp.apply, projectVaultToSyncRoot]
    cases hlisting : faults.listing with
    | true => exact h
    | false => exact h.projectFiles (ho hlisting)

/-- The next run does nothing for a stale placeholder. -/
theorem Stale.not_willRepoint {file : ProjectionFileRecord} (h : Stale file w)
    (hfile : file ∈ w.activeFiles) : ¬ w.WillRepoint file.inodeId := by
  have hunique : ∀ other ∈ w.activeFiles, other.inodeId = file.inodeId → other = file :=
    fun other hother hid => List.inj_on_of_nodup_map w.activeFiles_nodup hother hfile hid
  have hkept : Stale file (SyncRootWorld.projectFiles (fun _ => {}) w.activeFiles w).2 :=
    h.projectFiles hunique
  obtain ⟨-, old, hpoints, hold⟩ := hkept
  intro hwill
  obtain ⟨other, hother, hid, hrun⟩ := hwill
  obtain rfl := hunique other hother hid
  have hsame : some old = some other.revisionId := hpoints.symm.trans hrun
  exact hold (Option.some.inj hsame)

theorem not_noneStale_apply (o : SyncRootOp) (ho : ¬ RunRepoints o w) :
    ¬ (o.apply w).NoneStale := by
  cases o with
  | run faults =>
    simp only [RunRepoints, Classical.not_imp] at ho
    obtain ⟨file, hmem, hstale⟩ := stale_projectFiles w.activeFiles_nodup ho.2
    have hrun : (SyncRootOp.run faults).apply w =
        (projectFiles faults.file w.activeFiles w).2 := by
      simp [SyncRootOp.apply, projectVaultToSyncRoot, ho.1]
    have hactive : file ∈ (projectFiles faults.file w.activeFiles w).2.activeFiles := by
      rwa [activeFiles, projectFiles_files]
    rw [hrun]
    intro hnone
    obtain ⟨hrecorded, old, hpoints, hold⟩ := hstale
    cases hnone _ _ _ hrecorded hpoints with
    | inl heq => exact hold heq
    | inr hwill => exact Stale.not_willRepoint ⟨hrecorded, old, hpoints, hold⟩ hactive hwill
  | _ => exact absurd trivial ho

/-- A run that keeps the agreement has pointed every placeholder at the current revision, also if
some of its calls failed. -/
theorem runPoints (o : SyncRootOp) (h : w.Agrees) (ho : RunRepoints o w) : RunPoints o w := by
  cases o with
  | run faults =>
    intro hok file hfile revision hrevision
    cases hlisting : faults.listing with
    | true => simp [projectVaultToSyncRoot, hlisting] at hok
    | false =>
      simp only [projectVaultToSyncRoot, hlisting, Bool.false_eq_true, if_false] at hok hrevision
      have hrecorded := recorded_projectFiles w.activeFiles_nodup hok file hfile
      exact h.projectFiles (ho hlisting) _ _ _ hrecorded hrevision
  | _ => trivial

end SyncRootWorld

/-- No placeholder stays stale in a sequence of new revisions and runs. -/
def PlaceholdersFollow (vault : VaultFiles) (ops : List SyncRootOp) : Prop :=
  (∀ w ∈ states SyncRootOp.apply ops (.start vault), w.NoneStale) ∧
    guarded SyncRootOp.apply SyncRootWorld.RunPoints ops (.start vault)

/-- No placeholder stays stale in exactly the sequences whose runs, for every file they reach,
repoint an existing placeholder whenever they overwrite the recorded revision and the placeholder
points at another one than the current. -/
theorem placeholders_follow_iff (vault : VaultFiles) (ops : List SyncRootOp) :
    PlaceholdersFollow vault ops ↔
      guarded SyncRootOp.apply SyncRootWorld.RunRepoints ops (.start vault) := by
  have hstart : (SyncRootWorld.start vault).Agrees := by
    intro inodeId recorded revision hrecorded
    cases hrecorded
  have hlegal : guarded SyncRootOp.apply (fun _ _ => True) ops (.start vault) :=
    guarded_of_forall SyncRootOp.apply (fun _ _ => trivial) ops _
  have hkeep : ∀ o (w : SyncRootWorld), w.Agrees → True → SyncRootWorld.RunRepoints o w →
      (SyncRootOp.apply o w).Agrees := fun o w h _ ho => h.apply o ho
  have hnone := good_iff_guarded SyncRootOp.apply (fun _ _ => True) SyncRootWorld.RunRepoints
    SyncRootWorld.Agrees SyncRootWorld.NoneStale (fun w h => h.noneStale) hkeep
    (fun o w _ _ ho => SyncRootWorld.not_noneStale_apply o ho) hstart hlegal
  constructor
  · intro h
    exact hnone.mp h.1
  · intro h
    refine ⟨hnone.mpr h, ?_⟩
    exact guarded_of_inv SyncRootOp.apply (fun _ _ => True) SyncRootWorld.RunRepoints
      SyncRootWorld.Agrees hkeep (fun o w hw _ ho => SyncRootWorld.runPoints o hw ho) hstart
      hlegal h

/-- One file at its first revision. -/
def oneVaultFile : VaultFiles where
  files := [{ inodeId := 1, path := "notes.txt",
              current := some { revisionId := 1, size := 5, createdAt := 0 } }]
  inodeId_nodup := by decide

/-- A repointing that failed once is never tried again. -/
theorem placeholder_stays_stale :
    ¬ PlaceholdersFollow oneVaultFile
      [.run {}, .newRevision 1 { revisionId := 2, size := 7, createdAt := 0 },
        .run { file := fun _ => { update := true } }, .run {}] := by
  intro h
  have hlast := h.2.2.2.2.1 (by decide +kernel)
    { inodeId := 1, path := "notes.txt", revisionId := 2, size := 7, createdAt := 0 }
    (by decide +kernel) 1 (by decide +kernel)
  exact absurd hlast (by decide)

end OmniDrive
