import OmniDrive.Crypto.SymbolicChunks
import OmniDrive.Library.Scripts
import OmniDrive.Storage.Erasure
import OmniDrive.Storage.Scrubber

/-!
# What the scrubber has found

The scrubber, the uploader and the repair worker write the same rows of `pack_shards`, each with a
copy of the row that it has read earlier. The writes, with the objects that reach a provider, stand
in a log, from which it can be told whether an object has ever been uploaded and whether a corruption
is still there.
-/

namespace OmniDrive

open Tables Scripts GuardedRuns

variable {P : Primitives}

namespace ShardWorkers

open Scrubber

/-! ## Writes -/

/-- A write to the row of a shard, or to its object. -/
inductive ShardWrite where
  | register (s : ScrubShardRecord)
  | markInProgress (key : ShardKey)
  | putObject (key : ShardKey)
  | markCompleted (key : ShardKey)
  | requeue (key : ShardKey) (errorMessage : String)
  | markFailed (key : ShardKey) (errorMessage : String)
  | markPermanentlyFailed (key : ShardKey) (errorMessage : String)
  | resetInProgress
  | recordVerdict (key : ShardKey) (v : Verdict) (now : ℤ)
  deriving DecidableEq, Repr

/-- A new row. -/
def newShard (s : ScrubShardRecord) : ScrubShardRecord where
  packId := s.packId
  shardIndex := s.shardIndex
  shardRole := s.shardRole
  provider := s.provider
  objectKey := s.objectKey
  size := s.size
  checksum := s.checksum
  status := .pending
  id := s.id

/-- `register_pack_shard` with the status `PENDING`. -/
def registerPackShard (s : ScrubShardRecord) (rows : List ScrubShardRecord) :
    List ScrubShardRecord :=
  upsert ScrubShardRecord.key
    (fun old => { old with
      shardRole := s.shardRole
      provider := s.provider
      objectKey := s.objectKey
      size := s.size
      checksum := s.checksum
      status := .pending
      lastError := none })
    (newShard s) rows

/-- The rows behind a write. -/
def ShardWrite.rows (w : ShardWrite) (rows : List ScrubShardRecord) : List ScrubShardRecord :=
  match w with
  | register s => registerPackShard s rows
  | markInProgress key =>
    updateRow key (fun s => { s with status := .inProgress, lastError := none }) rows
  | putObject _ => rows
  | markCompleted key =>
    updateRow key (fun s => { s with status := .completed, lastError := none }) rows
  | requeue key errorMessage =>
    updateRow key (fun s =>
      { s with status := .pending, attempts := s.attempts + 1, lastError := some errorMessage }) rows
  | markFailed key errorMessage =>
    updateRow key (fun s =>
      { s with status := .failed, attempts := s.attempts + 1, lastError := some errorMessage }) rows
  | markPermanentlyFailed key errorMessage =>
    updateRow key (fun s =>
      { s with status := .permanentlyFailed, lastError := some errorMessage }) rows
  | resetInProgress =>
    updateWhere (fun s => s.status = .inProgress) (fun s => { s with status := .pending }) rows
  | recordVerdict key v now => updateShardVerificationStatus key v now rows

/-- The rows, and the writes behind them, the last one first. -/
structure ShardTable where
  rows : List ScrubShardRecord := []
  log : List ShardWrite := []

def ShardWrite.apply (w : ShardWrite) (t : ShardTable) : ShardTable where
  rows := w.rows t.rows
  log := w :: t.log

abbrev ShardScript := Script ShardTable ShardWrite

/-! ## Workers -/

section Workers

variable (C : ChunkPrimitives P)

/-- The checks of a batch from a position on. -/
def verifyShards (answers : ShardKey → ScrubAnswers) (modulus : ℕ) (clock : ℕ → ℤ) :
    ℕ → List ScrubShardRecord → ShardScript Unit
  | _, [] => pure ()
  | idx, shard :: rest => do
    match verdictOf C (answers shard.key) shard (shouldDeepVerifyWith shard idx modulus) with
    | some v => Script.exec (.recordVerdict shard.key v (clock idx))
    | none => pure ()
    verifyShards answers modulus clock (idx + 1) rest

def runOneBatch (answers : ShardKey → ScrubAnswers) (batchSize : ℤ) (modulus : ℕ)
    (clock : ℕ → ℤ) : ShardScript Unit := do
  let batch ← Script.query fun t => getNextShardsForScrub batchSize t.rows
  verifyShards C answers modulus clock 0 batch

end Workers

/-- What became of a PUT: whether the object was written, and what the worker makes of the answer.
An error or a timeout does not tell whether it was. -/
inductive PutAnswer where
  | stored
  | retryable (written : Bool) (message : String) (permanent : Bool)
  | refused (written : Bool) (message : String)

def PutAnswer.written : PutAnswer → Bool
  | stored => true
  | retryable written _ _ => written
  | refused written _ => written

def putObject (key : ShardKey) (answer : PutAnswer) : ShardScript Unit :=
  if answer.written then Script.exec (.putObject key) else pure ()

/-- What the uploader meets at a shard. -/
inductive UploadAnswer where
  | notConfigured (message : String) (permanent : Bool)
  | overLimit (message : String)
  | guarded
  | localShardMissing (message : String)
  | put (answer : PutAnswer)

/-- Requeue a shard, and give it up after too many attempts on its target. -/
def requeueOrGiveUp (key : ShardKey) (message : String) (permanent : Bool) : ShardScript Unit := do
  Script.exec (.requeue key message)
  if permanent then Script.exec (.markPermanentlyFailed key message) else pure ()

def uploadShards (answers : ShardKey → UploadAnswer) : List ScrubShardRecord → ShardScript Unit
  | [] => pure ()
  | shard :: rest =>
    match answers shard.key with
    | .notConfigured message permanent => do
      requeueOrGiveUp shard.key message permanent
      uploadShards answers rest
    | .overLimit message => do
      Script.exec (.markFailed shard.key message)
      uploadShards answers rest
    | .guarded => pure ()
    | .localShardMissing message => do
      Script.exec (.markInProgress shard.key)
      Script.exec (.markFailed shard.key message)
      uploadShards answers rest
    | .put answer => do
      Script.exec (.markInProgress shard.key)
      putObject shard.key answer
      match answer with
      | .stored => Script.exec (.markCompleted shard.key)
      | .retryable _ message permanent => requeueOrGiveUp shard.key message permanent
      | .refused _ message => Script.exec (.markFailed shard.key message)
      uploadShards answers rest

def getPackShards (packId : String) (t : ShardTable) : List ScrubShardRecord :=
  orderBy (·.shardIndex) (t.rows.filter (·.packId = packId))

def getIncompletePackShards (packId : String) (t : ShardTable) : List ScrubShardRecord :=
  (getPackShards packId t).filter fun s => s.status ≠ .completed && s.status ≠ .permanentlyFailed

def summarizePackShards (packId : String) (t : ShardTable) : Db.PackShardSummary :=
  Db.shardSummary packId { packShards := t.rows.map (·.toPackShardRecord) }

/-- The shards of `process_job`. -/
def processJob (packId : String) (answers : ShardKey → UploadAnswer) : ShardScript Unit := do
  let pending ← Script.query (getIncompletePackShards packId)
  uploadShards answers pending

/-- Store a shard; an answer other than success requeues it. -/
def storeShard (key : ShardKey) (answer : PutAnswer) : ShardScript Bool := do
  Script.exec (.markInProgress key)
  putObject key answer
  match answer with
  | .stored => do
    Script.exec (.markCompleted key)
    pure true
  | .retryable _ message _ => do
    Script.exec (.requeue key message)
    pure false
  | .refused _ message => do
    Script.exec (.requeue key message)
    pure false

/-- `repair_pack` on a pack in `EC_2_1`: whether the missing shard could be rebuilt, and the answer
to its PUT. -/
def repairPack (packId : String) (rebuilt : Bool) (answer : PutAnswer) : ShardScript Unit := do
  let shards ← Script.query (getPackShards packId)
  if shards.length ≠ totalShards then pure ()
  else do
    let summary ← Script.query (summarizePackShards packId)
    match Db.resolvePackStatusForMode .ec21 summary with
    | .healthy => pure ()
    | .unreadable => pure ()
    | _ =>
      if (shards.filter (·.status = .completed)).length < dataShards then pure ()
      else match shards.find? (·.status ≠ .completed) with
        | none => pure ()
        | some missing =>
          if rebuilt then do
            let _ ← storeShard missing.key answer
            pure ()
          else pure ()

def registerAll : List ScrubShardRecord → ShardScript Unit
  | [] => pure ()
  | s :: rest => do
    Script.exec (.register s)
    registerAll rest

/-- The uploads of `reconcile_pack_mode`, up to the first that fails. -/
def storeShards (answers : ShardKey → PutAnswer) : List ScrubShardRecord → ShardScript Unit
  | [] => pure ()
  | shard :: rest => do
    if ← storeShard shard.key (answers shard.key) then storeShards answers rest else pure ()

/-- `reconcile_pack_mode` on the shards of the new pack. -/
def reconcilePackMode (newPackId : String) (prepared : List ScrubShardRecord)
    (answers : ShardKey → PutAnswer) : ShardScript Unit := do
  let existing ← Script.query (getPackShards newPackId)
  if existing.isEmpty then registerAll prepared else pure ()
  let pending ← Script.query (getIncompletePackShards newPackId)
  storeShards answers pending

/-- The operations on shards, with what the environment answers. -/
inductive ShardOp where
  | register (shards : List ScrubShardRecord)
  | resetInProgress
  | scrub (answers : ShardKey → ScrubAnswers) (batchSize : ℤ) (deepVerifyModulus : ℕ)
      (packCount : ℤ) (clock : ℕ → ℤ)
  | upload (packId : String) (answers : ShardKey → UploadAnswer)
  | repair (packId : String) (rebuilt : Bool) (answer : PutAnswer)
  | reconcile (newPackId : String) (prepared : List ScrubShardRecord)
      (answers : ShardKey → PutAnswer)

def ShardOp.script (C : ChunkPrimitives P) : ShardOp → ShardScript Unit
  | register shards => registerAll shards
  | resetInProgress => Script.exec .resetInProgress
  | scrub answers batchSize deepVerifyModulus packCount clock =>
    runOneBatch C answers batchSize (effectiveDeepVerifyModulus deepVerifyModulus packCount) clock
  | upload packId answers => processJob packId answers
  | repair packId rebuilt answer => repairPack packId rebuilt answer
  | reconcile newPackId prepared answers => reconcilePackMode newPackId prepared answers

/-- Checks that nothing interrupts write what the batch of the scrubber writes. -/
theorem rows_run_verifyShards (C : ChunkPrimitives P) (answers : ShardKey → ScrubAnswers)
    (modulus : ℕ) (clock : ℕ → ℤ) (idx : ℕ) (batch : List ScrubShardRecord) (t : ShardTable) :
    ((verifyShards C answers modulus clock idx batch).run ShardWrite.apply t).rows =
      verifyBatch C answers modulus clock idx batch t.rows := by
  induction batch generalizing idx t with
  | nil => rfl
  | cons shard rest ih =>
    rw [verifyShards, verifyBatch]
    cases hverdict : verdictOf C (answers shard.key) shard (shouldDeepVerifyWith shard idx modulus) with
    | none =>
      have hsame : (verifyShard C (answers shard.key) (clock idx) shard
          (shouldDeepVerifyWith shard idx modulus) t.rows).2 = t.rows := by
        rw [verifyShard, hverdict]
        split <;> rfl
      rw [hsame]
      exact ih (idx + 1) t
    | some v =>
      have hconfigured : (answers shard.key).configured = true := by
        by_contra hno
        rw [verdictOf, Bool.eq_false_iff.mpr hno] at hverdict
        cases hverdict
      have hwritten : (verifyShard C (answers shard.key) (clock idx) shard
          (shouldDeepVerifyWith shard idx modulus) t.rows).2 =
            updateShardVerificationStatus shard.key v (clock idx) t.rows := by
        rw [verifyShard, if_pos hconfigured, hverdict]
      rw [hwritten]
      exact ih (idx + 1) _

/-! ## What the log says -/

/-- An object has been written for the shard. -/
def Uploaded (log : List ShardWrite) (key : ShardKey) : Prop := ShardWrite.putObject key ∈ log

instance (log : List ShardWrite) (key : ShardKey) : Decidable (Uploaded log key) :=
  inferInstanceAs (Decidable (_ ∈ _))

/-- A deep check has found a corruption, and since then the object has not been rewritten, and no
deep check has matched the checksum. -/
def isCorrupted : List ShardWrite → ShardKey → Bool
  | [], _ => false
  | .putObject key' :: log, key => key' ≠ key && isCorrupted log key
  | .recordVerdict key' v _ :: log, key =>
    if key' = key ∧ v.method = .deep ∧ v.status = .corrupted then true
    else if key' = key ∧ v.method = .deep ∧ v.status = .healthy then false
    else isCorrupted log key
  | _ :: log, key => isCorrupted log key

def Corrupted (log : List ShardWrite) (key : ShardKey) : Prop := isCorrupted log key = true

instance (log : List ShardWrite) (key : ShardKey) : Decidable (Corrupted log key) :=
  inferInstanceAs (Decidable (_ = _))

/-- A corruption is not forgotten, and what has not been uploaded has not been checked. -/
structure Sound (t : ShardTable) : Prop where
  corrupted : ∀ s ∈ t.rows, Corrupted t.log s.key →
    s.status ≠ .completed ∧ s.lastVerificationStatus ≠ some .healthy
  uploaded : ∀ s ∈ t.rows, s.lastVerificationStatus.isSome = true → Uploaded t.log s.key

/-- No check of sizes calls a corrupted shard healthy, no worker marks it completed, and no check
writes to a shard that has not been uploaded. -/
def Allowed (w : ShardWrite) (t : ShardTable) : Prop :=
  match w with
  | .recordVerdict key v _ => (∃ s ∈ t.rows, s.key = key) →
      Uploaded t.log key ∧ (v.method = .light → v.status = .healthy → ¬ Corrupted t.log key)
  | .markCompleted key => (∃ s ∈ t.rows, s.key = key) → ¬ Corrupted t.log key
  | _ => True

/-! ## One write -/

section Writes

variable {t : ShardTable} {key : ShardKey}

theorem Uploaded.cons {log : List ShardWrite} (h : Uploaded log key) (w : ShardWrite) :
    Uploaded (w :: log) key := List.mem_cons_of_mem w h

/-- Rows that keep what they say of checks and are not newly completed keep the property. -/
theorem Sound.of_rows {t' : ShardTable} (h : Sound t)
    (hrows : ∀ s' ∈ t'.rows, ∃ s ∈ t.rows, s'.key = s.key ∧
      s'.lastVerificationStatus = s.lastVerificationStatus ∧
      (s'.status = .completed → s.status = .completed))
    (hcorrupted : ∀ key, Corrupted t'.log key → Corrupted t.log key)
    (huploaded : ∀ key, Uploaded t.log key → Uploaded t'.log key) : Sound t' := by
  constructor
  · intro s' hs' hcorrupt
    obtain ⟨s, hs, hkey, hstatus, hcompleted⟩ := hrows s' hs'
    rw [hkey] at hcorrupt
    obtain ⟨hnot, hhealthy⟩ := h.corrupted s hs (hcorrupted s.key hcorrupt)
    exact ⟨fun hc => hnot (hcompleted hc), hstatus ▸ hhealthy⟩
  · intro s' hs' hsome
    obtain ⟨s, hs, hkey, hstatus, -⟩ := hrows s' hs'
    rw [hkey]
    exact huploaded s.key (h.uploaded s hs (hstatus ▸ hsome))

/-- A row behind an update. -/
theorem exists_of_mem_updateRow {f : ScrubShardRecord → ScrubShardRecord}
    {rows : List ScrubShardRecord} {s' : ScrubShardRecord} (h : s' ∈ updateRow key f rows) :
    ∃ s ∈ rows, (s.key = key ∧ s' = f s) ∨ (s.key ≠ key ∧ s' = s) := by
  obtain ⟨s, hs, hnew⟩ := mem_updateWhere.mp h
  refine ⟨s, hs, ?_⟩
  by_cases hkey : s.key = key
  · rw [if_pos (decide_eq_true hkey)] at hnew
    exact .inl ⟨hkey, hnew.symm⟩
  · rw [if_neg (by simpa using hkey)] at hnew
    exact .inr ⟨hkey, hnew.symm⟩

theorem mem_updateRow_of_mem {f : ScrubShardRecord → ScrubShardRecord}
    {rows : List ScrubShardRecord} {s : ScrubShardRecord} (hs : s ∈ rows) :
    f s ∈ updateRow s.key f rows :=
  mem_updateWhere.mpr ⟨s, hs, if_pos (decide_eq_true rfl)⟩

/-- An update that sets a status other than `COMPLETED`. -/
theorem Sound.updateRow (h : Sound t) {f : ScrubShardRecord → ScrubShardRecord} {w : ShardWrite}
    (hkey : ∀ s, (f s).key = s.key)
    (hstatus : ∀ s, (f s).lastVerificationStatus = s.lastVerificationStatus)
    (hcompleted : ∀ s, (f s).status ≠ .completed)
    (hcorrupted : ∀ key, Corrupted (w :: t.log) key → Corrupted t.log key) :
    Sound { rows := updateRow key f t.rows, log := w :: t.log } := by
  apply h.of_rows _ hcorrupted (fun _ hup => hup.cons w)
  intro s' hs'
  obtain ⟨s, hs, ⟨-, rfl⟩ | ⟨-, rfl⟩⟩ := exists_of_mem_updateRow hs'
  · exact ⟨s, hs, hkey s, hstatus s, fun hc => absurd hc (hcompleted s)⟩
  · exact ⟨s', hs, rfl, rfl, id⟩

/-- A registered shard has not been checked yet, or it keeps what has been found. -/
theorem Sound.register (h : Sound t) (s : ScrubShardRecord) :
    Sound ((ShardWrite.register s).apply t) := by
  have hmem : ∀ s' ∈ registerPackShard s t.rows,
      s'.lastVerificationStatus = none ∧ s'.status ≠ .completed ∨
        ∃ old ∈ t.rows, s'.key = old.key ∧ s'.lastVerificationStatus = old.lastVerificationStatus ∧
          (s'.status = .completed → old.status = .completed) := by
    intro s' hs'
    rcases mem_of_mem_upsert hs' with hold | rfl | ⟨old, hold, -, rfl⟩
    · exact .inr ⟨s', hold, rfl, rfl, id⟩
    · exact .inl ⟨rfl, by simp [newShard]⟩
    · exact .inr ⟨old, hold, rfl, rfl, fun hc => by cases hc⟩
  constructor
  · intro s' hs' hcorrupt
    rcases hmem s' hs' with ⟨hnone, hpending⟩ | ⟨old, hold, hkey, hstatus, hcompleted⟩
    · exact ⟨hpending, by rw [hnone]; simp⟩
    · rw [hkey] at hcorrupt
      obtain ⟨hnot, hhealthy⟩ := h.corrupted old hold hcorrupt
      exact ⟨fun hc => hnot (hcompleted hc), hstatus ▸ hhealthy⟩
  · intro s' hs' hsome
    rcases hmem s' hs' with ⟨hnone, -⟩ | ⟨old, hold, hkey, hstatus, -⟩
    · rw [hnone] at hsome
      cases hsome
    · rw [hkey]
      exact (h.uploaded old hold (hstatus ▸ hsome)).cons _

/-- A completed shard was not corrupted. -/
theorem Sound.markCompleted (h : Sound t) (hallowed : Allowed (.markCompleted key) t) :
    Sound ((ShardWrite.markCompleted key).apply t) := by
  constructor
  · intro s' hs' hcorrupt
    obtain ⟨s, hs, ⟨hkey, rfl⟩ | ⟨-, rfl⟩⟩ := exists_of_mem_updateRow hs'
    · exact absurd (hkey ▸ hcorrupt) (hallowed ⟨s, hs, hkey⟩)
    · exact h.corrupted s' hs hcorrupt
  · intro s' hs' hsome
    obtain ⟨s, hs, ⟨-, rfl⟩ | ⟨-, rfl⟩⟩ := exists_of_mem_updateRow hs'
    · exact (h.uploaded s hs hsome).cons _
    · exact (h.uploaded s' hs hsome).cons _

/-- What a verdict on a shard leaves of an earlier corruption. -/
theorem corrupted_recordVerdict {log : List ShardWrite} {key' : ShardKey} {v : Verdict} {now : ℤ}
    (h : Corrupted (.recordVerdict key' v now :: log) key) :
    key' = key ∧ v.status = .corrupted ∨ Corrupted log key ∧
      (key' = key → v.status = .healthy → v.method = .light) := by
  rw [Corrupted, isCorrupted] at h
  split at h
  · rename_i hfound
    exact .inl ⟨hfound.1, hfound.2.2⟩
  · split at h
    · cases h
    · rename_i hhealthy
      refine .inr ⟨h, fun hkey hstatus => ?_⟩
      cases hmethod : v.method with
      | light => rfl
      | deep => exact absurd ⟨hkey, hmethod, hstatus⟩ hhealthy

theorem Sound.recordVerdict (h : Sound t) {v : Verdict} {now : ℤ}
    (hallowed : Allowed (.recordVerdict key v now) t) :
    Sound ((ShardWrite.recordVerdict key v now).apply t) := by
  constructor
  · intro s' hs' hcorrupt
    obtain ⟨s, hs, ⟨hkey, rfl⟩ | ⟨hkey, rfl⟩⟩ := exists_of_mem_updateRow hs'
    · have hunhealthy : v.status ≠ .healthy := by
        intro hhealthy
        rcases corrupted_recordVerdict hcorrupt with ⟨-, hfound⟩ | ⟨hearlier, hmethod⟩
        · rw [hhealthy] at hfound
          cases hfound
        · have hlight := hmethod hkey.symm hhealthy
          rw [← hkey] at hallowed
          exact (hallowed ⟨s, hs, rfl⟩).2 hlight hhealthy hearlier
      constructor
      · simp [Scrubber.recordVerdict, Verdict.operationalStatus, hunhealthy]
      · simp [Scrubber.recordVerdict, hunhealthy]
    · rcases corrupted_recordVerdict hcorrupt with ⟨hsame, -⟩ | ⟨hearlier, -⟩
      · exact absurd hsame.symm hkey
      · exact h.corrupted s' hs hearlier
  · intro s' hs' hsome
    obtain ⟨s, hs, ⟨hkey, rfl⟩ | ⟨-, rfl⟩⟩ := exists_of_mem_updateRow hs'
    · have huploaded := (hallowed ⟨s, hs, hkey⟩).1
      rw [← hkey] at huploaded
      exact huploaded.cons _
    · exact (h.uploaded s' hs hsome).cons _

/-- Every write that is allowed keeps the property. -/
theorem Sound.apply (h : Sound t) {w : ShardWrite} (hallowed : Allowed w t) : Sound (w.apply t) := by
  cases w with
  | register s => exact h.register s
  | markInProgress key =>
    exact h.updateRow (fun _ => rfl) (fun _ => rfl) (fun _ => by simp) (fun _ => id)
  | putObject key =>
    have hcorrupted : ∀ key', Corrupted (.putObject key :: t.log) key' → Corrupted t.log key' :=
      fun _ hcorrupt => (Bool.and_eq_true_iff.mp hcorrupt).2
    exact h.of_rows (fun s hs => ⟨s, hs, rfl, rfl, id⟩) hcorrupted (fun _ hup => hup.cons _)
  | markCompleted key => exact h.markCompleted hallowed
  | requeue key errorMessage =>
    exact h.updateRow (fun _ => rfl) (fun _ => rfl) (fun _ => by simp) (fun _ => id)
  | markFailed key errorMessage =>
    exact h.updateRow (fun _ => rfl) (fun _ => rfl) (fun _ => by simp) (fun _ => id)
  | markPermanentlyFailed key errorMessage =>
    exact h.updateRow (fun _ => rfl) (fun _ => rfl) (fun _ => by simp) (fun _ => id)
  | resetInProgress =>
    have hcorrupted : ∀ key, Corrupted (.resetInProgress :: t.log) key → Corrupted t.log key :=
      fun _ hcorrupt => hcorrupt
    refine h.of_rows ?_ hcorrupted (fun _ hup => hup.cons _)
    intro s' hs'
    obtain ⟨s, hs, rfl⟩ := mem_updateWhere.mp hs'
    refine ⟨s, hs, ?_⟩
    split
    · exact ⟨rfl, rfl, fun hc => by cases hc⟩
    · exact ⟨rfl, rfl, id⟩
  | recordVerdict key v now => exact h.recordVerdict hallowed

/-- Every other write breaks it. -/
theorem not_sound_apply {w : ShardWrite} (hallowed : ¬ Allowed w t) : ¬ Sound (w.apply t) := by
  intro h
  cases w with
  | markCompleted key =>
    apply hallowed
    rintro ⟨s, hs, rfl⟩ hcorrupt
    exact (h.corrupted _ (mem_updateRow_of_mem hs) hcorrupt).1 rfl
  | recordVerdict key v now =>
    apply hallowed
    rintro ⟨s, hs, rfl⟩
    have hmem : Scrubber.recordVerdict v now s ∈
        ((ShardWrite.recordVerdict s.key v now).apply t).rows := mem_updateRow_of_mem hs
    constructor
    · have huploaded := h.uploaded _ hmem rfl
      exact (List.mem_cons.mp huploaded).resolve_left (by simp)
    · intro hlight hhealthy hcorrupt
      apply (h.corrupted _ hmem _).2
      · exact congrArg some hhealthy
      · change Corrupted (.recordVerdict s.key v now :: t.log) s.key
        rw [Corrupted, isCorrupted]
        simpa [hlight, Corrupted] using hcorrupt
  | _ => exact hallowed trivial

end Writes

/-! ## Runs -/

/-- In every run, from the empty table, of uploads, repairs and checks whose statements interleave,
no corruption is forgotten and nothing is checked before it is uploaded, just if every write is
allowed. -/
theorem remembers_iff (C : ChunkPrimitives P) (events : List (Event ShardOp)) :
    (∀ t ∈ states (Event.apply (ShardOp.script C) ShardWrite.apply) events { state := {} },
      Sound t.state) ↔
      guarded (Event.apply (ShardOp.script C) ShardWrite.apply) (OnWrites Allowed) events
        { state := {} } := by
  have hempty : Sound {} := ⟨by simp, by simp⟩
  have hfits : guarded (Event.apply (ShardOp.script C) ShardWrite.apply)
      (OnWrites fun _ _ => True) events { state := {} } :=
    guarded_of_forall _ (fun _ _ _ _ => trivial) events _
  exact good_iff_onWrites (fun _ h => h) (fun _ _ h _ hallowed => h.apply hallowed)
    (fun _ _ _ _ hallowed => not_sound_apply hallowed) hempty hfits

/-- A shard of the pack `"p"`. -/
def smallShard (shardIndex : ℕ) : ScrubShardRecord where
  packId := "p"
  shardIndex := shardIndex
  shardRole := .data
  provider := "a"
  objectKey := ⟨"p", shardIndex⟩
  size := 1
  checksum := "checksum"
  status := .pending
  id := shardIndex + 1

/-- Objects of the recorded size with other bytes. -/
def otherBytes (_ : ShardKey) : ScrubAnswers where
  configured := true
  headAllowed := true
  head := .found (some 1)
  getAllowed := true
  get := .body [0]

/-- An upload of three shards and two batches of checks, one after the other. -/
def deepThenLight : List (Event ShardOp) :=
  .start (.register [smallShard 0, smallShard 1, smallShard 2]) :: List.replicate 3 (.stmt 0) ++
  .start (.upload "p" fun _ => .put .stored) :: List.replicate 10 (.stmt 1) ++
  .start (.scrub otherBytes 2 20 1 fun idx => idx) :: List.replicate 3 (.stmt 2) ++
  .start (.scrub otherBytes 2 20 1 fun idx => idx + 2) :: List.replicate 3 (.stmt 3)

def deepThenLightEnd : ShardTable :=
  (deepThenLight.foldl (fun t e => Event.apply (ShardOp.script symbolicChunks) ShardWrite.apply e t)
    { state := {} }).state

/-- The first shard is found corrupted, and then called healthy for its size. -/
theorem deepThenLight_forgets : ¬ ∀ events : List (Event ShardOp),
    ∀ t ∈ states (Event.apply (ShardOp.script symbolicChunks) ShardWrite.apply) events
      { state := {} }, Sound t.state := by
  intro h
  have hlast : Sound deepThenLightEnd := h deepThenLight _ (mem_states_last _ _ _)
  have hcompleted : ∃ s ∈ deepThenLightEnd.rows,
      Corrupted deepThenLightEnd.log s.key ∧ s.status = .completed := by
    decide +kernel
  obtain ⟨s, hs, hcorrupt, hstatus⟩ := hcompleted
  exact (hlast.corrupted s hs hcorrupt).1 hstatus

end ShardWorkers

end OmniDrive
