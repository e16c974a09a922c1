import OmniDrive.Storage.Records
import OmniDrive.Library.Tables

/-!
# Ingest jobs

The states of an ingest job and the statements of `db/ingest.rs` on the table of jobs.
-/

namespace OmniDrive

open Tables

inductive IngestState where
  | pending
  | chunking
  | uploading
  | ghosted
  | failed
  deriving DecidableEq, Repr

namespace IngestState

def asStr : IngestState → String
  | .pending => "PENDING"
  | .chunking => "CHUNKING"
  | .uploading => "UPLOADING"
  | .ghosted => "GHOSTED"
  | .failed => "FAILED"

def validTransitions : IngestState → List IngestState
  | .pending => [.chunking, .failed]
  | .chunking => [.uploading, .failed]
  | .uploading => [.ghosted, .failed]
  | .ghosted => []
  | .failed => [.pending]

def canTransitionTo (source target : IngestState) : Bool := source.validTransitions.contains target

end IngestState

/-- A row of `ingest_jobs`. -/
structure IngestJobRow where
  id : ℤ
  filePath : String
  fileSize : ℤ
  state : IngestState := .pending
  bytesProcessed : ℤ := 0
  attemptCount : ℤ := 0
  errorMessage : Option String := none
  createdAt : ℤ
  updatedAt : ℤ
  deriving DecidableEq, Repr

inductive IngestError where
  | invalidTransition (source target : IngestState)
  | io (message : String)
  | packer
  deriving DecidableEq, Repr

/-- The table `ingest_jobs` with the last id it assigned. -/
structure IngestJobs where
  rows : List IngestJobRow := []
  sequence : ℤ := 0

namespace IngestJobs

variable (jobs : IngestJobs) (now : ℤ)

def createIngestJob (filePath : String) (fileSize : ℤ) : IngestJobs where
  rows := jobs.rows ++
    [{ id := jobs.sequence + 1, filePath, fileSize, createdAt := now, updatedAt := now }]
  sequence := jobs.sequence + 1

/-- The oldest job that waits. -/
def getNextPendingIngestJob : Option IngestJobRow :=
  (orderBy (·.createdAt) (jobs.rows.filter (·.state = .pending))).head?

def getIngestJob (jobId : ℤ) : Option IngestJobRow := jobs.rows.find? (·.id = jobId)

/-- Update the rows of a job that stand in one of the states. -/
def updateIn (jobId : ℤ) (states : List IngestState) (f : IngestJobRow → IngestJobRow) :
    IngestJobs :=
  { jobs with rows := updateWhere (fun job => job.id = jobId && states.contains job.state) f jobs.rows }

/-- Whether a job stands in a state, which is when a guarded statement changes its row. -/
def isIn (jobId : ℤ) (state : IngestState) : Bool :=
  jobs.rows.any fun job => job.id = jobId && job.state = state

def transitionIngestJob (jobId : ℤ) (source target : IngestState) : IngestJobs :=
  jobs.updateIn jobId [source] fun job => { job with state := target, updatedAt := now }

def updateIngestProgress (jobId bytesProcessed : ℤ) : IngestJobs :=
  { jobs with
    rows := updateWhere (·.id = jobId)
      (fun job => { job with bytesProcessed, updatedAt := now }) jobs.rows }

/-- The failure is recorded whatever the state. -/
def failIngestJob (jobId : ℤ) (errorMessage : String) : IngestJobs :=
  { jobs with
    rows := updateWhere (·.id = jobId)
      (fun job => { job with
        state := .failed, errorMessage := some errorMessage,
        attemptCount := job.attemptCount + 1, updatedAt := now }) jobs.rows }

def resetInterruptedIngestJobs : IngestJobs :=
  { jobs with
    rows := updateWhere (fun job => job.state = .chunking || job.state = .uploading)
      (fun job => { job with
        state := .pending, errorMessage := some "interrupted by restart",
        attemptCount := job.attemptCount + 1, updatedAt := now }) jobs.rows }

def retryIngestJob (jobId : ℤ) : IngestJobs :=
  jobs.updateIn jobId [.failed] fun job =>
    { job with
      state := .pending, errorMessage := none, attemptCount := 0, bytesProcessed := 0,
      updatedAt := now }

/-- Delete a job that stands in a state. -/
def deleteIn (jobId : ℤ) (state : IngestState) : IngestJobs :=
  { jobs with rows := deleteWhere (fun job => job.id = jobId && job.state = state) jobs.rows }

def deleteIngestJob (jobId : ℤ) : IngestJobs := jobs.deleteIn jobId .ghosted

def deleteFailedIngestJob (jobId : ℤ) : IngestJobs := jobs.deleteIn jobId .failed

end IngestJobs

end OmniDrive
