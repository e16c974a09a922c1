import Mathlib.Data.List.Infix
import Mathlib.Data.Prod.Lex
import OmniDrive.Backup.Restore
import OmniDrive.Crypto.Chunks
import OmniDrive.Storage.Database

/-!
# The scrubber

The scrubber takes the shards that have waited longest, asks the provider for the size of each
object, fetches some of them and writes what it found to the row of the shard. A check that gets no
answer writes nothing.
-/

namespace OmniDrive

open StatementProgram Tables

variable {P : Primitives}

inductive VerificationMethod where
  | light
  | deep
  deriving DecidableEq, Repr

inductive VerificationStatus where
  | healthy
  | sizeMismatch
  | missing
  | corrupted
  deriving DecidableEq, Repr

/-- A row of `pack_shards` with the columns of the scrubber. -/
structure ScrubShardRecord extends PackShardRecord where
  id : ℤ
  lastVerifiedAt : Option ℤ := none
  lastVerificationMethod : Option VerificationMethod := none
  lastVerificationStatus : Option VerificationStatus := none
  lastVerifiedSize : Option ℤ := none
  verificationFailures : ℤ := 0
  deriving DecidableEq, Repr

/-- The unique pair of a shard. -/
abbrev ShardKey := String × ℤ

def ScrubShardRecord.key (s : ScrubShardRecord) : ShardKey := (s.packId, s.shardIndex)

namespace Scrubber

/-! ## The rows -/

/-- Update the row of a shard. -/
def updateRow (key : ShardKey) (f : ScrubShardRecord → ScrubShardRecord)
    (rows : List ScrubShardRecord) : List ScrubShardRecord :=
  updateWhere (fun s => s.key = key) f rows

/-- The order of the query: never verified first, then the longest ago, the most failures, the
lowest `id`. -/
def scrubOrder (s : ScrubShardRecord) : ℕ ×ₗ ℤ ×ₗ ℤᵒᵈ ×ₗ ℤ :=
  toLex (if s.lastVerifiedAt.isNone then 0 else 1,
    toLex (s.lastVerifiedAt.getD 0, toLex (OrderDual.toDual s.verificationFailures, s.id)))

def getNextShardsForScrub (n : ℤ) (rows : List ScrubShardRecord) : List ScrubShardRecord :=
  limit n (orderBy scrubOrder rows)

/-- What a check writes. -/
structure Verdict where
  method : VerificationMethod
  status : VerificationStatus
  verifiedSize : Option ℤ
  incrementFailures : Bool
  lastError : Option String
  deriving DecidableEq, Repr

def Verdict.operationalStatus (v : Verdict) : ShardStatus :=
  if v.status = .healthy then .completed else .failed

/-- The row after a verdict at a time. -/
def recordVerdict (v : Verdict) (now : ℤ) (s : ScrubShardRecord) : ScrubShardRecord :=
  { s with
    status := v.operationalStatus
    lastVerifiedAt := some now
    lastVerificationMethod := some v.method
    lastVerificationStatus := some v.status
    lastVerifiedSize := v.verifiedSize
    verificationFailures := s.verificationFailures + if v.incrementFailures then 1 else 0
    lastError := v.lastError }

def updateShardVerificationStatus (key : ShardKey) (v : Verdict) (now : ℤ)
    (rows : List ScrubShardRecord) : List ScrubShardRecord :=
  updateRow key (recordVerdict v now) rows

/-! ## The answers of a provider -/

inductive HeadAnswer where
  | found (contentLength : Option ℤ)
  | failed (details : String)
  | timedOut
  deriving DecidableEq, Repr

inductive GetAnswer where
  | body (bytes : Bytes)
  | brokenBody
  | failed (details : String)
  | timedOut
  deriving DecidableEq, Repr

def isMissingError (details : String) : Bool :=
  ["404", "410", "notfound", "no such key", "nosuchkey", "resource not found"].any fun word =>
    word.toList <:+: (Backup.toAsciiLowercase details).toList

/-- What comes after the answer to a HEAD. -/
inductive HeadOutcome where
  | record (v : Verdict)
  | deep
  | nothing
  deriving DecidableEq, Repr

def afterHead (size : ℤ) (useDeep : Bool) : HeadAnswer → HeadOutcome
  | .found contentLength =>
    let contentLength := contentLength.getD 0
    if contentLength ≠ size then
      .record ⟨.light, .sizeMismatch, some contentLength, true,
        some "provider content-length does not match recorded shard size"⟩
    else if useDeep then .deep
    else .record ⟨.light, .healthy, some contentLength, false, none⟩
  | .failed details =>
    if isMissingError details then .record ⟨.light, .missing, none, true, some details⟩ else .nothing
  | .timedOut => .nothing

/-- What comes after the answer to a GET. -/
def afterGet (C : ChunkPrimitives P) (checksum : String) : GetAnswer → Option Verdict
  | .body bytes =>
    let verifiedSize := min (bytes.length : ℤ) (2 ^ 63 - 1)
    if C.sha256Hex bytes = checksum then some ⟨.deep, .healthy, some verifiedSize, false, none⟩
    else some ⟨.deep, .corrupted, some verifiedSize, true, some "deep checksum mismatch"⟩
  | .brokenBody => none
  | .failed details =>
    if isMissingError details then some ⟨.deep, .missing, none, true, some details⟩ else none
  | .timedOut => none

/-! ## One shard -/

inductive ScrubberError where
  | invalidEnv (key : String)
  deriving DecidableEq, Repr

/-- What the checks of a shard meet: its provider, the guard before each request, and the answers. -/
structure ScrubAnswers where
  configured : Bool
  headAllowed : Bool
  head : HeadAnswer
  getAllowed : Bool
  get : GetAnswer

variable (C : ChunkPrimitives P)

/-- The verdict of a check, if it gets to one. -/
def verdictOf (answers : ScrubAnswers) (shard : ScrubShardRecord) (useDeep : Bool) :
    Option Verdict :=
  if answers.configured && answers.headAllowed then
    match afterHead shard.size useDeep answers.head with
    | .record v => some v
    | .deep => if answers.getAllowed then afterGet C shard.checksum answers.get else none
    | .nothing => none
  else none

/-- `verify_shard` and the rows behind it. -/
def verifyShard (answers : ScrubAnswers) (now : ℤ) (shard : ScrubShardRecord) (useDeep : Bool)
    (rows : List ScrubShardRecord) : Except ScrubberError Unit × List ScrubShardRecord :=
  if answers.configured then
    (.ok (), match verdictOf C answers shard useDeep with
      | some v => updateShardVerificationStatus shard.key v now rows
      | none => rows)
  else (.error (.invalidEnv "scrub provider not configured"), rows)

/-! ## A batch -/

def effectiveDeepVerifyModulus (deepVerifyModulus : ℕ) (packCount : ℤ) : ℕ :=
  if packCount < 100 then max deepVerifyModulus 100 else deepVerifyModulus

def shouldDeepVerifyWith (shard : ScrubShardRecord) (batchIndex modulus : ℕ) : Bool :=
  if modulus = 0 then false
  else batchIndex % modulus = 0 || (0 ≤ shard.id && shard.id.toNat % modulus = 0)

/-- The loop over a batch from a position on; errors are logged. -/
def verifyBatch (answers : ShardKey → ScrubAnswers) (modulus : ℕ) (clock : ℕ → ℤ) :
    ℕ → List ScrubShardRecord → List ScrubShardRecord → List ScrubShardRecord
  | _, [], rows => rows
  | idx, shard :: rest, rows =>
    verifyBatch answers modulus clock (idx + 1) rest
      (verifyShard C (answers shard.key) (clock idx) shard
        (shouldDeepVerifyWith shard idx modulus) rows).2

/-- `run_one_batch`: how many shards it has attempted, and the rows behind it. -/
def runOneBatch (answers : ShardKey → ScrubAnswers) (batchSize : ℤ) (modulus : ℕ) (clock : ℕ → ℤ)
    (rows : List ScrubShardRecord) : ℕ × List ScrubShardRecord :=
  let batch := getNextShardsForScrub batchSize rows
  (batch.length, verifyBatch C answers modulus clock 0 batch rows)

end Scrubber

end OmniDrive
