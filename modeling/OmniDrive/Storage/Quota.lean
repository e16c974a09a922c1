import Mathlib.Algebra.Group.Int.Defs
import Mathlib.Algebra.Order.BigOperators.Group.List
import OmniDrive.Crypto.SymbolicChunks
import OmniDrive.Storage.Uploader

/-!
# The quota of a provider

Before the worker uploads a shard it adds the size of the shard to the bytes that the shards at its
provider occupy, and refuses the shard where the sum exceeds the limit. The bytes are a query over
the statuses that a shard passes through itself.
-/

namespace OmniDrive

open StatementProgram Tables

variable {P : Primitives}

/-- The errors of a job: those of the worker, and those of the database. -/
inductive UploadJobError where
  | database
  | uploader (err : UploaderError)
  deriving DecidableEq, Repr

namespace Db

/-- Whether a shard occupies bytes at a provider. -/
def occupies (providerName : String) (s : PackShardRecord) : Bool :=
  s.provider = providerName &&
    (s.status = .pending || s.status = .inProgress || s.status = .completed)

/-- The bytes that the shards at a provider occupy. -/
def physicalUsage (providerName : String) (db : FileDb) : ℤ :=
  ((db.packShards.filter (occupies providerName)).map (·.size)).sum

/-- `SUM` over a column is refused where it leaves the range of a column. -/
def getPhysicalUsageForProvider (providerName : String) : FileProg P UploadJobError ℕ := do
  let total ← selectFiles (physicalUsage providerName)
  if total < 2 ^ 63 then pure total.toNat else .fail .database

end Db

/-- The providers with an uploader, and the limits of the configuration. -/
structure UploadConfig where
  active : String → Bool
  cloudMaxSingleUploadBytes : ℕ
  maxPhysicalBytesPerProvider : ℕ

/-- What the checks before an upload say of a shard. -/
inductive ShardVerdict where
  | inactive (message : String)
  | tooLarge (message : String)
  | overQuota (message : String)
  | admitted
  deriving DecidableEq, Repr

namespace Uploader

variable (config : UploadConfig)

/-- `u64::saturating_add`. -/
def saturatingAdd (a b : ℕ) : ℕ := min (a + b) (2 ^ 64 - 1)

def inactiveMessage (provider : String) : String :=
  s!"provider {provider} is not active in runtime configuration; waiting for hot-reload"

def tooLargeMessage (fileSize limit : ℕ) : String :=
  s!"file size guard exceeded: {fileSize} bytes is above the configured limit {limit} bytes"

def overQuotaMessage (provider : String) (projected limit : ℕ) : String :=
  s!"quota exceeded for provider {provider}: projected={projected} limit={limit}"

/-- The verdict by the size of a shard and the usage of its provider. -/
def verdictOf (shard : PackShardRecord) (shardSize currentUsage : ℕ) : ShardVerdict :=
  let projectedUsage := saturatingAdd currentUsage shardSize
  if shardSize > config.cloudMaxSingleUploadBytes then
    .tooLarge (tooLargeMessage shardSize config.cloudMaxSingleUploadBytes)
  else if projectedUsage > config.maxPhysicalBytesPerProvider then
    .overQuota (overQuotaMessage shard.provider projectedUsage config.maxPhysicalBytesPerProvider)
  else .admitted

/-- The checks of a shard, up to the quota of its provider. -/
def checkShard (shard : PackShardRecord) : FileProg P UploadJobError ShardVerdict := do
  if config.active shard.provider = false then pure (.inactive (inactiveMessage shard.provider))
  else
    let currentUsage ← Db.getPhysicalUsageForProvider shard.provider
    if shard.size < 0 then .fail (.uploader (.invalidEnv "pack_shards.size"))
    else pure (verdictOf config shard shard.size.toNat currentUsage)

/-- One shard of a job with its checks; `permanent` tells the targets that failed for the last
time. -/
def processShard (permanent : PackShardRecord → Bool) (answer : PackShardRecord → ShardAnswer)
    (shard : PackShardRecord) : FileProg P UploadJobError Bool := do
  match ← checkShard config shard with
  | .inactive message =>
    retryShard shard message (permanent shard)
    pure true
  | .tooLarge message =>
    Db.markPackShardFailed shard.packId shard.shardIndex message
    pure true
  | .overQuota message =>
    Db.markPackShardFailed shard.packId shard.shardIndex message
    pure true
  | .admitted => (uploadShard answer shard).mapError .uploader

/-- What a verdict makes of a shard, as the worker of the model is told it. -/
def answerOf (permanent : PackShardRecord → Bool) (answer : PackShardRecord → ShardAnswer)
    (shard : PackShardRecord) : ShardVerdict → ShardAnswer
  | .inactive message => .retried message (permanent shard)
  | .tooLarge message => .failed message
  | .overQuota message => .failed message
  | .admitted => answer shard

/-- The checks only read. -/
theorem fixes_checkShard (shard : PackShardRecord) :
    (checkShard (P := P) config shard).Fixes id := by
  rw [checkShard]
  split
  · exact Prog.Fixes.pure _
  · apply Prog.Fixes.bind
    · apply (Prog.Fixes.query _).bind
      intro total
      split
      · exact Prog.Fixes.pure _
      · trivial
    · intro currentUsage
      split
      · trivial
      · exact Prog.Fixes.pure _

/-- A shard that is checked first is a shard whose answer is its verdict. -/
theorem run_processShard (permanent : PackShardRecord → Bool)
    (answer : PackShardRecord → ShardAnswer) {shard : PackShardRecord} {w : FileWorld P}
    {verdict : ShardVerdict} (h : ((checkShard config shard).run w).1 = .ok verdict) :
    (processShard config permanent answer shard).run w =
      ((uploadShard (fun s => answerOf permanent answer s verdict) shard).mapError
        UploadJobError.uploader).run w := by
  have hworld : ((checkShard config shard).run w).2 = w := (fixes_checkShard config shard).run w
  have hcheck : (checkShard config shard).run w = (.ok verdict, w) := Prod.ext h hworld
  rw [processShard, Prog.run_bind_of_ok hcheck]
  cases verdict with
  | inactive message =>
    rw [Prog.run_mapError]
    simp only [uploadShard, answerOf, retryShard]
    cases permanent shard <;> rfl
  | tooLarge message => rfl
  | overQuota message => rfl
  | admitted => rfl

/-- The worker gives a shard up because of the quota of its provider. -/
def RejectsForQuota (shard : PackShardRecord) (w : FileWorld P) : Prop :=
  ∃ message, ((checkShard config shard).run w).1 = .ok (.overQuota message)

/-- A shard that is given up is marked with the reason. -/
theorem run_processShard_of_rejects (permanent : PackShardRecord → Bool)
    (answer : PackShardRecord → ShardAnswer) {shard : PackShardRecord} {w : FileWorld P}
    (h : RejectsForQuota config shard w) :
    ∃ message, (processShard config permanent answer shard).run w =
      (.ok true, w.withDb (Db.updateShard shard.packId shard.shardIndex
        (fun s => { s with
          status := .failed, attempts := s.attempts + 1, lastError := some message }) w.db)) := by
  obtain ⟨message, hverdict⟩ := h
  refine ⟨message, ?_⟩
  rw [run_processShard config permanent answer hverdict]
  rfl

end Uploader

open Uploader

/-! ## When the quota is exact -/

/-- The key of a row of `pack_shards`. -/
def PackShardRecord.key (s : PackShardRecord) : String × ℤ := (s.packId, s.shardIndex)

/-- Rows of `pack_shards`: the keys are unique, and sizes are byte counts in a column. -/
structure ShardTable (rows : List PackShardRecord) : Prop where
  nodup : (rows.map PackShardRecord.key).Nodup
  size_nonneg : ∀ s ∈ rows, 0 ≤ s.size
  size_lt : ∀ s ∈ rows, s.size < 2 ^ 63

/-- A shard of the table whose upload is due: it is not stored yet, its provider is active, and it
is not too large for a single upload. -/
structure UploadDue (config : UploadConfig) (shard : PackShardRecord) (db : FileDb) : Prop where
  mem : shard ∈ db.packShards
  incomplete : shard.status ≠ .completed ∧ shard.status ≠ .permanentlyFailed
  active : config.active shard.provider = true
  single : shard.size ≤ config.cloudMaxSingleUploadBytes

/-- The bytes that the other shards at the provider of a shard occupy. -/
def otherBytes (shard : PackShardRecord) (db : FileDb) : ℤ :=
  ((db.packShards.filter fun s => Db.occupies shard.provider s && s.key ≠ shard.key).map
    (·.size)).sum

/-- The quota is exact for a shard: it is given up if and only if it does not fit beside the
others. -/
def QuotaExact (config : UploadConfig) (shard : PackShardRecord) (w : FileWorld P) : Prop :=
  RejectsForQuota config shard w ↔
    config.maxPhysicalBytesPerProvider < otherBytes shard w.db + shard.size

section Exact

variable {config : UploadConfig} {shard : PackShardRecord} {w : FileWorld P}

/-- The usage of a provider counts the shard itself, unless it has failed. -/
theorem physicalUsage_eq (htable : ShardTable w.db.packShards)
    (hdue : UploadDue config shard w.db) :
    Db.physicalUsage shard.provider w.db =
      otherBytes shard w.db + if shard.status = .failed then 0 else shard.size := by
  have hsum := sum_filter_eq_add htable.nodup hdue.mem (Db.occupies shard.provider) (·.size)
  have hincomplete := hdue.incomplete
  have hoccupies : Db.occupies shard.provider shard = decide (shard.status ≠ .failed) := by
    cases hstatus : shard.status <;> simp_all [Db.occupies]
  rw [Db.physicalUsage, otherBytes, hsum, hoccupies]
  by_cases hfailed : shard.status = .failed
  · simp [hfailed]
  · simp [hfailed]

/-- The sum of no negative numbers is not negative. -/
theorem otherBytes_nonneg (shard : PackShardRecord) (htable : ShardTable w.db.packShards) :
    0 ≤ otherBytes shard w.db := by
  apply List.sum_nonneg
  intro size hsize
  obtain ⟨s, hs, rfl⟩ := List.mem_map.mp hsize
  exact htable.size_nonneg s (List.mem_of_mem_filter hs)

/-- A due shard is given up where the usage of its provider and its size exceed the limit. -/
theorem rejectsForQuota_iff (htable : ShardTable w.db.packShards)
    (hdue : UploadDue config shard w.db) :
    RejectsForQuota config shard w ↔
      Db.physicalUsage shard.provider w.db < 2 ^ 63 ∧
        config.maxPhysicalBytesPerProvider <
          Db.physicalUsage shard.provider w.db + shard.size := by
  have husage : 0 ≤ Db.physicalUsage shard.provider w.db := by
    have hothers := otherBytes_nonneg shard htable
    have hsize := htable.size_nonneg shard hdue.mem
    rw [physicalUsage_eq htable hdue]
    split <;> omega
  have hsize := htable.size_nonneg shard hdue.mem
  have hcolumn := htable.size_lt shard hdue.mem
  have hsingle := hdue.single
  have hactive : ¬ config.active shard.provider = false := by
    rw [hdue.active]
    decide
  rw [RejectsForQuota]
  by_cases hfits : Db.physicalUsage shard.provider w.db < 2 ^ 63
  · have hread : (Db.getPhysicalUsageForProvider shard.provider).run w =
        (.ok (Db.physicalUsage shard.provider w.db).toNat, w) := by
      rw [Db.getPhysicalUsageForProvider, run_selectFiles_bind, if_pos hfits]
      rfl
    rw [checkShard, if_neg hactive, Prog.run_bind_of_ok hread, if_neg (not_lt.mpr hsize)]
    have hverdict : (∃ message, verdictOf config shard shard.size.toNat
        (Db.physicalUsage shard.provider w.db).toNat = .overQuota message) ↔
          config.maxPhysicalBytesPerProvider <
            saturatingAdd (Db.physicalUsage shard.provider w.db).toNat shard.size.toNat := by
      rw [verdictOf, if_neg (by omega)]
      split
      · rename_i hover
        simpa using hover
      · rename_i hover
        simpa using hover
    change (∃ message, Except.ok (verdictOf config shard shard.size.toNat
      (Db.physicalUsage shard.provider w.db).toNat) = .ok (.overQuota message)) ↔ _
    simp only [Except.ok.injEq, hverdict, hfits, true_and, saturatingAdd]
    omega
  · have hread : (Db.getPhysicalUsageForProvider shard.provider).run w =
        (.error .database, w) := by
      rw [Db.getPhysicalUsageForProvider, run_selectFiles_bind, if_neg hfits]
      rfl
    rw [checkShard, if_neg hactive, Prog.run_bind_of_error hread]
    constructor
    · rintro ⟨message, hmessage⟩
      cases hmessage
    · intro hover
      exact absurd hover.1 hfits

/-- The quota of a due shard is exact in these cases: its own row is not counted, or the others
leave no room for it, or they leave room for it twice. Where the database refuses the sum, nothing
is given up. -/
def QuotaSettled (config : UploadConfig) (shard : PackShardRecord) (db : FileDb) : Prop :=
  if Db.physicalUsage shard.provider db < 2 ^ 63 then
    shard.status = .failed ∨
      config.maxPhysicalBytesPerProvider < otherBytes shard db + shard.size ∨
        otherBytes shard db + 2 * shard.size ≤ config.maxPhysicalBytesPerProvider
  else otherBytes shard db + shard.size ≤ config.maxPhysicalBytesPerProvider

end Exact

/-- The quota is exact for a due shard if and only if its own bytes, counted a second time, make no
difference. -/
theorem quota_exact_iff {config : UploadConfig} {shard : PackShardRecord} {w : FileWorld P}
    (htable : ShardTable w.db.packShards) (hdue : UploadDue config shard w.db) :
    QuotaExact config shard w ↔ QuotaSettled config shard w.db := by
  have husage := physicalUsage_eq htable hdue
  have hsize := htable.size_nonneg shard hdue.mem
  rw [QuotaExact, rejectsForQuota_iff htable hdue, QuotaSettled]
  by_cases hfits : Db.physicalUsage shard.provider w.db < 2 ^ 63
  · rw [if_pos hfits]
    by_cases hfailed : shard.status = .failed
    · rw [if_pos hfailed] at husage
      simp only [hfailed, true_or, iff_true]
      omega
    · rw [if_neg hfailed] at husage
      simp only [hfailed, false_or, hfits, true_and]
      omega
  · rw [if_neg hfits]
    simp only [hfits, false_and, false_iff, not_lt]

/-- A provider with room for ten bytes. -/
def tenBytes : UploadConfig where
  active _ := true
  cloudMaxSingleUploadBytes := 100
  maxPhysicalBytesPerProvider := 10

/-- A shard of six bytes. -/
def sixBytes (status : ShardStatus) : PackShardRecord where
  packId := "pack"
  shardIndex := 0
  shardRole := .data
  provider := "r2"
  objectKey := ⟨"pack", 0⟩
  size := 6
  checksum := ""
  status := status

/-- The tables with one shard and nothing else. -/
def oneShard (shard : PackShardRecord) : FileWorld symbolic where
  vault := { db := {}, inner := none, draws := 0 }
  db := { packShards := [shard] }

theorem shardTable_oneShard (status : ShardStatus) :
    ShardTable (oneShard (sixBytes status)).db.packShards where
  nodup := List.nodup_singleton _
  size_nonneg := by
    intro s hs
    rw [List.mem_singleton.mp hs]
    exact (by decide : (0 : ℤ) ≤ 6)
  size_lt := by
    intro s hs
    rw [List.mem_singleton.mp hs]
    exact (by decide : (6 : ℤ) < 2 ^ 63)

theorem uploadDue_oneShard {status : ShardStatus}
    (h : status ≠ .completed ∧ status ≠ .permanentlyFailed) :
    UploadDue tenBytes (sixBytes status) (oneShard (sixBytes status)).db where
  mem := List.mem_singleton.mpr rfl
  incomplete := h
  active := rfl
  single := by
    change (6 : ℤ) ≤ (100 : ℕ)
    decide

/-- A pending shard of six bytes is given up at a provider that has room for ten and holds
nothing. -/
theorem quota_not_exact :
    ¬ QuotaExact tenBytes (sixBytes .pending) (oneShard (sixBytes .pending)) := by
  intro hexact
  have hiff := (rejectsForQuota_iff (shardTable_oneShard .pending)
    (uploadDue_oneShard (by decide))).symm.trans hexact
  have hrejects : Db.physicalUsage (sixBytes .pending).provider
      (oneShard (sixBytes .pending)).db < 2 ^ 63 ∧ (tenBytes.maxPhysicalBytesPerProvider : ℤ) <
        Db.physicalUsage (sixBytes .pending).provider (oneShard (sixBytes .pending)).db +
          (sixBytes .pending).size := by
    decide +kernel
  have hroom : ¬ (tenBytes.maxPhysicalBytesPerProvider : ℤ) <
      otherBytes (sixBytes .pending) (oneShard (sixBytes .pending)).db +
        (sixBytes .pending).size := by
    decide +kernel
  exact hroom (hiff.mp hrejects)

/-- The same shard is admitted once it has failed. -/
theorem quota_exact_failed :
    QuotaExact tenBytes (sixBytes .failed) (oneShard (sixBytes .failed)) :=
  (quota_exact_iff (shardTable_oneShard .failed) (uploadDue_oneShard (by decide))).mpr (by
    rw [QuotaSettled, if_pos (by decide +kernel)]
    exact .inl rfl)

end OmniDrive
