import OmniDrive.Backup.Restore
import OmniDrive.Library.Scripts

/-!
# The cloud guard

A request to a provider is charged to the counters of the day before it is made, unless that takes
one of them past its limit; the bytes that a read turned out to have are corrected afterwards. The
transaction on the counters begins as an immediate one, which keeps other writers out until it
commits, so that it is one write. Which day a request was charged to stands in a ledger beside the
tables.
-/

namespace OmniDrive

open Scripts

namespace CloudGuard

/-! ## The counters -/

/-- The counters of a row of `cloud_usage_daily`, a change of them, or their limits. -/
@[ext]
structure CloudUsage where
  readOps : ℤ := 0
  writeOps : ℤ := 0
  egressBytes : ℤ := 0
  deriving DecidableEq, Repr

def i64Max : ℤ := 2 ^ 63 - 1

/-- `i64::saturating_add`. -/
def saturatingAdd (a b : ℤ) : ℤ := max (-2 ^ 63) (min (a + b) i64Max)

def CloudUsage.add (usage delta : CloudUsage) : CloudUsage where
  readOps := saturatingAdd usage.readOps delta.readOps
  writeOps := saturatingAdd usage.writeOps delta.writeOps
  egressBytes := saturatingAdd usage.egressBytes delta.egressBytes

def CloudUsage.within (usage limits : CloudUsage) : Bool :=
  usage.readOps ≤ limits.readOps && usage.writeOps ≤ limits.writeOps &&
    usage.egressBytes ≤ limits.egressBytes

structure CloudUsageApplyResult where
  dayEpoch : ℤ
  usage : CloudUsage
  allowed : Bool

/-- `apply_cloud_usage_delta_with_limits`, on the table by its primary key. -/
def applyCloudUsageDeltaWithLimits (dayEpoch : ℤ) (delta limits : CloudUsage)
    (rows : ℤ → Option CloudUsage) : CloudUsageApplyResult × (ℤ → Option CloudUsage) :=
  let existing := (rows dayEpoch).getD {}
  let next := existing.add delta
  let allowed := next.within limits
  let usage := if allowed then next else existing
  ({ dayEpoch, usage, allowed }, Function.update rows dayEpoch (some usage))

/-! ## The state -/

/-- What a day is charged for a request, or for a correction of a request of that day. -/
structure LedgerEntry where
  day : ℤ
  amount : CloudUsage
  deriving DecidableEq, Repr

/-- The tables of the guard, the usage since the process began, the current day, and the ledger. -/
structure GuardState where
  systemConfig : String → Option String
  rows : ℤ → Option CloudUsage := fun _ => none
  session : CloudUsage := {}
  today : ℤ
  ledger : List LedgerEntry := []

/-- The counters of a day. -/
def GuardState.counters (s : GuardState) (day : ℤ) : CloudUsage := (s.rows day).getD {}

/-- What the ledger has of a day. -/
def usedOn (day : ℤ) (ledger : List LedgerEntry) : CloudUsage where
  readOps := ((ledger.filter (·.day = day)).map (·.amount.readOps)).sum
  writeOps := ((ledger.filter (·.day = day)).map (·.amount.writeOps)).sum
  egressBytes := ((ledger.filter (·.day = day)).map (·.amount.egressBytes)).sum

structure AppConfig where
  dryRunActive : Bool
  cloudDailyReadOpsLimit : ℕ
  cloudDailyWriteOpsLimit : ℕ
  cloudDailyEgressBytesLimit : ℕ

/-- The limits, as far as an `i64` goes. -/
def AppConfig.limits (config : AppConfig) : CloudUsage where
  readOps := min config.cloudDailyReadOpsLimit i64Max
  writeOps := min config.cloudDailyWriteOpsLimit i64Max
  egressBytes := min config.cloudDailyEgressBytesLimit i64Max

def unlimited : CloudUsage := ⟨i64Max, i64Max, i64Max⟩

/-- The writes of the guard, and midnight. -/
inductive GuardWrite where
  | setSystemConfigValue (key value : String)
  | charge (dayEpoch : ℤ) (delta : CloudUsage)
  | correct (chargedOn dayEpoch deltaBytes : ℤ)
  | addSession (delta : CloudUsage)
  | midnight
  deriving DecidableEq, Repr

def GuardWrite.apply (config : AppConfig) (w : GuardWrite) (s : GuardState) : GuardState :=
  match w with
  | setSystemConfigValue key value =>
    { s with systemConfig := Function.update s.systemConfig key (some value) }
  | charge dayEpoch delta =>
    let (result, rows) := applyCloudUsageDeltaWithLimits dayEpoch delta config.limits s.rows
    { s with rows, ledger := if result.allowed then ⟨dayEpoch, delta⟩ :: s.ledger else s.ledger }
  | correct chargedOn dayEpoch deltaBytes =>
    { s with
      rows := (applyCloudUsageDeltaWithLimits dayEpoch { egressBytes := deltaBytes } unlimited
        s.rows).2
      ledger := ⟨chargedOn, { egressBytes := deltaBytes }⟩ :: s.ledger }
  | addSession delta => { s with session := s.session.add delta }
  | midnight => { s with today := s.today + 1 }

abbrev GuardScript := Script GuardState GuardWrite

/-! ## Decisions -/

inductive GuardOperation where
  | read (count estimatedEgressBytes : ℤ)
  | write (count : ℤ)

def GuardOperation.delta : GuardOperation → CloudUsage
  | read count estimatedEgressBytes =>
    { readOps := max count 0, egressBytes := max estimatedEgressBytes 0 }
  | write count => { writeOps := max count 0 }

inductive GuardDecision where
  | allowed
  | dryRun (message : String)
  | suspended (reason : String)
  | quotaExceeded (reason : String)
  deriving DecidableEq, Repr

def cloudSuspendedKey : String := "cloud_suspended"

def cloudSuspendReasonKey : String := "cloud_suspend_reason"

def dryRunActiveKey : String := "dry_run_active"

def isDryRunActive (config : AppConfig) : GuardScript Bool :=
  if config.dryRunActive then pure true
  else Script.query fun s => s.systemConfig dryRunActiveKey = some "1"

def isCloudSuspended : GuardScript Bool :=
  Script.query fun s => s.systemConfig cloudSuspendedKey = some "1"

/-- The recorded reason, unless it is blank. -/
def suspendReason (s : GuardState) : String :=
  ((s.systemConfig cloudSuspendReasonKey).filter fun value => !(Backup.trim value).isEmpty).getD
    "cloud operations are suspended by circuit breaker"

def setCloudSuspension (reason : String) : GuardScript Unit := do
  Script.exec (.setSystemConfigValue cloudSuspendedKey "1")
  Script.exec (.setSystemConfigValue cloudSuspendReasonKey reason)

def breakerReason (usage limits : CloudUsage) : String :=
  "cloud circuit breaker tripped (daily read_ops=" ++ toString usage.readOps ++ "/" ++
    toString limits.readOps ++ " write_ops=" ++ toString usage.writeOps ++ "/" ++
    toString limits.writeOps ++ " egress_bytes=" ++ toString usage.egressBytes ++ "/" ++
    toString limits.egressBytes ++ ")"

/-- `current_decision`. With `Allowed` comes the day that was charged. -/
def currentDecision (config : AppConfig) (operation : GuardOperation) :
    GuardScript (GuardDecision × Option ℤ) := do
  let dryRun ← isDryRunActive config
  if dryRun then pure (.dryRun "DRY-RUN MODE ACTIVE - NO CLOUD COSTS", none)
  else do
    let suspended ← isCloudSuspended
    if suspended then do
      let reason ← Script.query suspendReason
      pure (.suspended reason, none)
    else do
      let dayEpoch ← Script.query GuardState.today
      let result ← Script.execReturning (.charge dayEpoch operation.delta) fun s =>
        (applyCloudUsageDeltaWithLimits dayEpoch operation.delta config.limits s.rows).1
      if !result.allowed then do
        let reason := breakerReason result.usage config.limits
        setCloudSuspension reason
        pure (.quotaExceeded reason, none)
      else do
        Script.exec (.addSession operation.delta)
        pure (.allowed, some dayEpoch)

/-- `reconcile_read_bytes` for a request that a day was charged for. -/
def reconcileReadBytes (chargedOn deltaBytes : ℤ) : GuardScript Unit :=
  if deltaBytes = 0 then pure ()
  else do
    let dayEpoch ← Script.query GuardState.today
    Script.exec (.correct chargedOn dayEpoch deltaBytes)
    Script.exec (.addSession { egressBytes := deltaBytes })

/-! ## Requests -/

def reconcileAll (chargedOn : ℤ) : List ℤ → GuardScript Unit
  | [] => pure ()
  | deltaBytes :: rest => do
    reconcileReadBytes chargedOn deltaBytes
    reconcileAll chargedOn rest

/-- The requests and their corrections, changes of the flags of the guard, and midnight. -/
inductive GuardOp where
  | request (operation : GuardOperation) (corrections : List ℤ)
  | setSystemConfigValue (key value : String)
  | midnight

def GuardOp.script (config : AppConfig) : GuardOp → GuardScript Unit
  | request operation corrections => do
    let (_, chargedOn) ← currentDecision config operation
    match chargedOn with
    | some day => reconcileAll day corrections
    | none => pure ()
  | setSystemConfigValue key value => Script.exec (.setSystemConfigValue key value)
  | midnight => Script.exec .midnight

end CloudGuard

end OmniDrive
