import OmniDrive.Backup.Snapshot
import OmniDrive.Crypto.Symbolic
import OmniDrive.Library.GuardedRuns

/-!
# The latest pointer

Runs of the metadata backup, one after another, between changes of the database by other workers
and stops of the process. A provider that has held a snapshot of a whole vault keeps one, as long
as the health that a run has read is the health of its snapshot, and no run ends behind a first
whole object before the counters are stored.
-/

namespace OmniDrive

namespace Backup

variable {P : Primitives}

/-! ## Whole snapshots -/

/-- The health of a database at one moment. -/
def healthOf (db : MetadataDb P) : SnapshotHealth where
  hasVaultState := db.vault.vaultState.isSome
  hasVaultConfig := db.vault.vaultConfig.isSome
  inodeCount := db.inodes.length
  dekCount := db.vault.deks.length

/-- A vault with both its rows, inodes and DEKs. -/
structure SnapshotHealth.Whole (health : SnapshotHealth) : Prop where
  vaultState : health.hasVaultState = true
  vaultConfig : health.hasVaultConfig = true
  inodes : 0 < health.inodeCount
  deks : 0 < health.dekCount

/-- The latest object of a provider holds a whole vault. -/
def BackupWorld.HoldsWhole (w : BackupWorld P) (provider : String) : Prop :=
  ∃ object, w.latest provider = some object ∧ (healthOf object.snapshot).Whole

/-- Both stored counters are positive. -/
def BackupWorld.Counted (w : BackupWorld P) : Prop :=
  0 < (readSnapshotCounter lastSnapshotInodeCountKey w.db).getD 0 ∧
    0 < (readSnapshotCounter lastSnapshotDekCountKey w.db).getD 0

/-- The counters speak for every whole object. -/
def BackupWorld.Covered (w : BackupWorld P) : Prop :=
  ∀ provider, w.HoldsWhole provider → w.Counted

/-! ## Runs -/

/-- A statement of a run, a change of the database by another worker, the start of a run with the
master key and its targets, or the end of the process. -/
inductive BackupOp (P : Primitives) where
  | start (masterKey : P.Key) (targets : List BackupTarget)
  | step (answer : Answer)
  | change (db : MetadataDb P)
  | stop

def BackupOp.apply (op : BackupOp P) (s : BackupRun P) : BackupRun P :=
  match op with
  | .start masterKey targets =>
    if s.point.isIdle then { s with targets, point := .vaultState masterKey } else s
  | .step answer => s.step answer
  | .change db => s.put { s.world with db } s.point
  | .stop => s.go .idle

/-- Providers that hold a whole vault go on holding one. -/
def KeepsWhole (s t : BackupRun P) : Prop :=
  ∀ provider, s.world.HoldsWhole provider → t.world.HoldsWhole provider

/-- No provider has a latest object, and no run is in progress. -/
structure FreshProviders (s : BackupRun P) : Prop where
  latest : ∀ provider, s.world.latest provider = none
  idle : s.point = .idle

/-- Nobody but a run of the backup writes the two counters. -/
def BackupOp.Legal (op : BackupOp P) (s : BackupRun P) : Prop :=
  ∀ db, op = .change db →
    db.systemConfig lastSnapshotInodeCountKey =
        s.world.db.systemConfig lastSnapshotInodeCountKey ∧
      db.systemConfig lastSnapshotDekCountKey = s.world.db.systemConfig lastSnapshotDekCountKey

/-- The snapshot of a run that advances is as whole as the health it has read; a latest object
whose upload fails is not stored, or the counters are positive; and a run that ends before its
counters leaves every whole object covered. -/
def BackupOp.Guarded (op : BackupOp P) (s : BackupRun P) : Prop :=
  match op with
  | .start _ _ | .change _ => True
  | .stop => s.world.Covered
  | .step answer => match s.point with
    | .vacuum plan =>
      plan.advanceLatest = true → ((healthOf s.world.db).Whole ↔ plan.health.Whole)
    | .uploadLatest plan _ _ _ =>
      answer.upload.isSome → answer.effect = true → plan.health.Whole → s.world.Counted
    | .recordAttempt _ _ _ _ | .updateStatus _ _ _ _ _ | .writeInodeCount _ | .writeDekCount _ =>
      answer.refused.isSome → s.world.Covered
    | _ => True

/-! ## The invariant -/

/-- Before the uploads of a plan: the whole objects are covered, and a plan that advances over one
has read a whole vault. -/
structure Decided (plan : BackupPlan P) (w : BackupWorld P) : Prop where
  covered : w.Covered
  justified : plan.advanceLatest = true → ∀ provider, w.HoldsWhole provider → plan.health.Whole

/-- The encrypted file of an advancing plan is as whole as the health that was read. -/
def EncryptedFits (plan : BackupPlan P) (w : BackupWorld P) : Prop :=
  ∀ object, w.encrypted plan.stamp = some object → plan.advanceLatest = true →
    ((healthOf object.snapshot).Whole ↔ plan.health.Whole)

/-- So is the plaintext file. -/
def PlaintextFits (plan : BackupPlan P) (w : BackupWorld P) : Prop :=
  ∀ snapshot, w.plaintext plan.stamp = some snapshot → plan.advanceLatest = true →
    ((healthOf snapshot).Whole ↔ plan.health.Whole)

/-- During the uploads of a plan, with the number of targets that have succeeded. -/
structure Uploading (plan : BackupPlan P) (successes : ℕ) (w : BackupWorld P) : Prop where
  fits : EncryptedFits plan w
  justified : plan.advanceLatest = true → ∀ provider, w.HoldsWhole provider → plan.health.Whole
  still : plan.advanceLatest = false → w.Covered
  unsuccessful : successes = 0 → w.Covered

/-- What holds at each point of a run. -/
def BackupRun.Inv (s : BackupRun P) : Prop :=
  let w := s.world
  match s.point with
  | .previousDekCount _ _ previous =>
    w.Covered ∧ previous = readSnapshotCounter lastSnapshotInodeCountKey w.db
  | .clearFiles plan | .vacuum plan => Decided plan w
  | .kdfParams plan | .encrypt plan _ => Decided plan w ∧ PlaintextFits plan w
  | .deletePlaintext plan encrypted =>
    Decided plan w ∧ (encrypted = .ok () → EncryptedFits plan w)
  | .encryptedSize plan => Decided plan w ∧ EncryptedFits plan w
  | .recordAttempt plan up _ _ | .uploadSnapshot plan up _ _ _ =>
    Uploading plan up.successfulUploads w
  | .uploadLatest plan up _ _ =>
    plan.advanceLatest = true ∧ Uploading plan up.successfulUploads w
  | .updateStatus plan up _ _ lastError =>
    Uploading plan (up.successfulUploads + if lastError = none then 1 else 0) w
  | .deleteEncrypted plan (.ok ()) => Uploading plan 1 w
  | .writeInodeCount plan => ∀ provider, w.HoldsWhole provider → plan.health.Whole
  | .writeDekCount plan =>
    (∀ provider, w.HoldsWhole provider → plan.health.Whole) ∧
      readSnapshotCounter lastSnapshotInodeCountKey w.db = some (plan.health.inodeCount : ℤ)
  | _ => w.Covered

/-! ## Counters -/

/-- A number is read back as it was written. -/
theorem parseI64_toString (n : ℕ) : parseI64 (toString n) = some (n : ℤ) := by
  have hlist : (toString n).toList = Nat.toDigits 10 n := by
    rw [Nat.toString_eq_ofList_toDigits, String.toList_ofList]
  have hdigit : ∀ c ∈ Nat.toDigits 10 n, c.isDigit = true := by
    intro c hc
    exact Nat.isDigit_of_mem_toDigits (by decide) (by decide) hc
  have hvalue : Nat.ofDigitChars 10 (Nat.toDigits 10 n) 0 = n := Nat.ofDigitChars_ten_toDigits
  have hne : Nat.toDigits 10 n ≠ [] := Nat.toDigits_ne_nil
  rw [parseI64, hlist]
  generalize Nat.toDigits 10 n = digits at hdigit hvalue hne
  split
  rename_i negative tail hsplit
  have htail : negative = false ∧ tail = digits := by
    split at hsplit
    · exact absurd (hdigit '-' (by simp)) (by decide)
    · exact absurd (hdigit '+' (by simp)) (by decide)
    · cases hsplit
      exact ⟨rfl, rfl⟩
  rw [htail.1, htail.2, if_neg (by simpa [hne] using hdigit), hvalue]
  rfl

/-- A counter that was stored. -/
theorem readSnapshotCounter_set (key : String) (n : ℕ) (db : MetadataDb P) :
    readSnapshotCounter key (setSystemConfigValue key (toString n) db) = some (n : ℤ) := by
  rw [readSnapshotCounter, setSystemConfigValue]
  simp only [Function.update_self, Option.bind_some]
  exact parseI64_toString n

/-- Storing one counter keeps the other. -/
theorem readSnapshotCounter_set_of_ne {key key' : String} (h : key ≠ key') (value : String)
    (db : MetadataDb P) :
    readSnapshotCounter key (setSystemConfigValue key' value db) = readSnapshotCounter key db := by
  rw [readSnapshotCounter, setSystemConfigValue, readSnapshotCounter]
  simp only [Function.update_of_ne h]

/-- A plan that advances while the counters are positive has read a whole vault. -/
theorem whole_of_advance {health : SnapshotHealth} {previousInodes previousDeks : Option ℤ}
    (h : latestPointerMayAdvance health previousInodes previousDeks = true)
    (hinodes : 0 < previousInodes.getD 0) (hdeks : 0 < previousDeks.getD 0) : health.Whole := by
  rw [latestPointerMayAdvance] at h
  split at h
  · cases h
  · rename_i hrows
    split at h
    · cases h
    · rename_i hnoInodes
      split at h
      · cases h
      · rename_i hnoDeks
        have hrows : health.hasVaultState = true ∧ health.hasVaultConfig = true := by
          simpa using hrows
        constructor
        · exact hrows.1
        · exact hrows.2
        · apply Nat.pos_of_ne_zero
          exact fun hzero => hnoInodes ⟨hzero, hinodes⟩
        · apply Nat.pos_of_ne_zero
          exact fun hzero => hnoDeks ⟨hzero, hdeks⟩

/-! ## One statement -/

variable {plan : BackupPlan P} {w : BackupWorld P} {s : BackupRun P}

/-- The object that an advancing plan puts under a latest key is as whole as every object it may
replace. -/
theorem Uploading.holdsWhole_putLatest {n : ℕ} {object : BackupObject P} {provider : String}
    (h : Uploading plan n w) (hadvance : plan.advanceLatest = true)
    (hobject : w.encrypted plan.stamp = some object) {p : String} (hp : w.HoldsWhole p) :
    (w.putLatest provider object).HoldsWhole p := by
  by_cases hprovider : p = provider
  · subst hprovider
    have hwhole := (h.fits object hobject hadvance).mpr (h.justified hadvance p hp)
    exact ⟨object, by simp [BackupWorld.putLatest], hwhole⟩
  · obtain ⟨held, hheld, hwhole⟩ := hp
    exact ⟨held, by simpa [BackupWorld.putLatest, hprovider] using hheld, hwhole⟩

/-- A whole object under a latest key was there before or is the new one. -/
theorem holdsWhole_of_putLatest {object : BackupObject P} {provider p : String}
    (h : (w.putLatest provider object).HoldsWhole p) :
    w.HoldsWhole p ∨ (healthOf object.snapshot).Whole := by
  obtain ⟨held, hheld, hwhole⟩ := h
  by_cases hprovider : p = provider
  · subst hprovider
    have heq : object = held := by simpa [BackupWorld.putLatest] using hheld
    rw [heq]
    exact Or.inr hwhole
  · exact Or.inl ⟨held, by simpa [BackupWorld.putLatest, hprovider] using hheld, hwhole⟩

/-- Putting a latest object counts as a success, or every whole object is covered still. -/
theorem Uploading.putLatest {n m : ℕ} {object : BackupObject P} {provider : String}
    (h : Uploading plan n w) (hadvance : plan.advanceLatest = true)
    (hobject : w.encrypted plan.stamp = some object)
    (hcounted : m = 0 → n = 0 ∧ (plan.health.Whole → w.Counted)) :
    Uploading plan m (w.putLatest provider object) := by
  have hwhole : ∀ p, (w.putLatest provider object).HoldsWhole p → plan.health.Whole := by
    intro p hp
    rcases holdsWhole_of_putLatest hp with hp | hp
    · exact h.justified hadvance p hp
    · exact (h.fits object hobject hadvance).mp hp
  constructor
  · exact h.fits
  · exact fun _ => hwhole
  · intro hstill
    rw [hadvance] at hstill
    cases hstill
  · intro hzero p hp
    exact (hcounted hzero).2 (hwhole p hp)

/-- Another success. -/
theorem Uploading.succeeded {n : ℕ} (h : Uploading plan n w) : Uploading plan (n + 1) w :=
  ⟨h.fits, h.justified, h.still, fun hzero => absurd hzero (Nat.succ_ne_zero n)⟩

/-- A copy of the snapshot under its own key does not count. -/
theorem Uploading.putSnapshot {n : ℕ} (h : Uploading plan n w) (provider key : String)
    (object : BackupObject P) : Uploading plan n (w.putSnapshot provider key object) :=
  ⟨h.fits, h.justified, h.still, h.unsuccessful⟩

/-- A target that has failed changes nothing. -/
theorem inv_failed {up : UploadProgress} (h : Uploading plan up.successfulUploads w)
    (target : BackupTarget) (rest : List BackupTarget) (text : String) :
    (s.put w (.updateStatus plan up target rest (some text))).Inv := by
  show Uploading plan (up.successfulUploads + if some text = none then 1 else 0) w
  rw [if_neg (by simp)]
  exact h

/-- A target that has taken its objects is a success. -/
theorem inv_succeeded {up : UploadProgress} (h : Uploading plan (up.successfulUploads + 1) w)
    (target : BackupTarget) (rest : List BackupTarget) :
    (s.put w (.updateStatus plan up target rest none)).Inv := h

/-- The next target finds what the last one leaves. -/
theorem inv_nextTarget (up : UploadProgress) (h : Uploading plan up.successfulUploads w)
    (rest : List BackupTarget) : (s.put w (nextTarget plan up rest)).Inv := by
  cases rest with
  | cons target rest => exact h
  | nil =>
    by_cases hzero : up.successfulUploads = 0
    · rw [nextTarget, if_pos hzero]
      exact h.unsuccessful hzero
    · rw [nextTarget, if_neg hzero]
      exact { h with unsuccessful := fun hone => absurd hone (by decide) }

/-- The object is as whole as the snapshot it is made of. -/
theorem inv_encrypt {answer : Answer} {targets : List BackupTarget} {kdf : RootKdfParams}
    (h : Decided plan w) (hfits : PlaintextFits plan w) :
    (BackupRun.step answer ⟨w, targets, .encrypt plan kdf⟩).Inv := by
  have hfailed : ∀ err : DisasterRecoveryError,
      (BackupRun.mk w targets (.deletePlaintext plan (.error err))).Inv :=
    fun err => ⟨h, fun hok => by cases hok⟩
  rw [BackupRun.step]
  dsimp only
  split
  · exact hfailed _
  · exact hfailed _
  · rename_i snapshot hrefused hplaintext
    split
    · exact hfailed _
    · rename_i object hobject
      refine ⟨⟨h.covered, h.justified⟩, fun _ => ?_⟩
      intro stored hstored hadvance
      have heq : object = stored := by
        simpa [BackupRun.put, BackupWorld.setEncrypted] using hstored
      rw [← heq, eq_of_sealSnapshot hobject]
      exact hfits snapshot hplaintext hadvance

/-- The upload of a snapshot moves no latest object. -/
theorem inv_uploadSnapshot {answer : Answer} {targets : List BackupTarget} {up : UploadProgress}
    {target : BackupTarget} {rest : List BackupTarget} {attempt : ℕ}
    (h : Uploading plan up.successfulUploads w) :
    (BackupRun.step answer ⟨w, targets, .uploadSnapshot plan up target rest attempt⟩).Inv := by
  rw [BackupRun.step]
  dsimp only
  cases hobject : w.encrypted plan.stamp with
  | none => exact inv_failed (s := ⟨w, targets, .idle⟩) h target rest _
  | some object =>
    have hstored := h.putSnapshot target.providerName up.snapshotKey object
    cases answer.upload with
    | none =>
      dsimp only
      split
      · rename_i hadvance
        exact ⟨hadvance, hstored⟩
      · exact inv_succeeded (s := ⟨w, targets, .idle⟩) hstored.succeeded target rest
    | some err =>
      have hleft : Uploading plan up.successfulUploads (if answer.effect then
          w.putSnapshot target.providerName up.snapshotKey object else w) := by
        split
        · exact hstored
        · exact h
      dsimp only
      generalize (if answer.effect then
        w.putSnapshot target.providerName up.snapshotKey object else w) = w' at hleft ⊢
      split
      · exact hleft
      · exact inv_failed (s := ⟨w, targets, .idle⟩) hleft target rest _

/-- An upload of a latest object is a success, or it is not stored, or the counters are positive
where its snapshot is whole. -/
theorem inv_uploadLatest {answer : Answer} {targets : List BackupTarget} {up : UploadProgress}
    {target : BackupTarget} {rest : List BackupTarget} (hadvance : plan.advanceLatest = true)
    (h : Uploading plan up.successfulUploads w)
    (hguard : answer.upload.isSome → answer.effect = true → plan.health.Whole → w.Counted) :
    (BackupRun.step answer ⟨w, targets, .uploadLatest plan up target rest⟩).Inv := by
  rw [BackupRun.step]
  dsimp only
  cases hobject : w.encrypted plan.stamp with
  | none => exact inv_failed (s := ⟨w, targets, .idle⟩) h target rest _
  | some object =>
    cases hupload : answer.upload with
    | none =>
      apply inv_succeeded (s := ⟨w, targets, .idle⟩)
      apply h.putLatest hadvance hobject
      intro hzero
      cases hzero
    | some err =>
      apply inv_failed (s := ⟨w, targets, .idle⟩)
      split
      · rename_i heffect
        apply h.putLatest hadvance hobject
        intro hzero
        exact ⟨hzero, hguard (by rw [hupload]; rfl) heffect⟩
      · exact h

/-- A refused status ends the uploads; otherwise the next target follows. -/
theorem inv_updateStatus {answer : Answer} {targets : List BackupTarget} {up : UploadProgress}
    {target : BackupTarget} {rest : List BackupTarget} {lastError : Option String}
    (h : Uploading plan (up.successfulUploads + if lastError = none then 1 else 0) w)
    (hguard : answer.refused.isSome → w.Covered) :
    (BackupRun.step answer ⟨w, targets, .updateStatus plan up target rest lastError⟩).Inv := by
  have hwritten : ∀ backupId status, Uploading plan
      (up.successfulUploads + if lastError = none then 1 else 0)
      (w.writeDb (updateMetadataBackupStatus backupId status lastError)) :=
    fun _ _ => ⟨h.fits, h.justified, h.still, h.unsuccessful⟩
  rw [BackupRun.step]
  cases hrefused : answer.refused with
  | some message => exact hguard (by rw [hrefused]; rfl)
  | none =>
    cases lastError with
    | none =>
      exact inv_nextTarget (s := ⟨w, targets, .idle⟩)
        { up with successfulUploads := up.successfulUploads + 1 } (hwritten _ _) rest
    | some text =>
      rw [if_neg (by simp)] at hwritten
      exact inv_nextTarget (s := ⟨w, targets, .idle⟩) up (hwritten _ _) rest

/-- After the uploads, the counters follow or every whole object is covered. -/
theorem inv_deleteEncrypted {answer : Answer} {targets : List BackupTarget}
    {result : BackupResult} (h : (BackupRun.mk w targets (.deleteEncrypted plan result)).Inv) :
    (BackupRun.step answer ⟨w, targets, .deleteEncrypted plan result⟩).Inv := by
  obtain ⟨w', hw', hlatest, hdb⟩ : ∃ w' : BackupWorld P,
      (if answer.refused.isSome then w else w.setEncrypted plan.stamp none) = w' ∧
        w'.latest = w.latest ∧ w'.db = w.db := by
    refine ⟨_, rfl, ?_⟩
    split <;> exact ⟨rfl, rfl⟩
  have hholds : ∀ p, w'.HoldsWhole p → w.HoldsWhole p := by
    intro p hp
    rwa [BackupWorld.HoldsWhole, hlatest] at hp
  have hcovered : w.Covered → w'.Covered := by
    intro hw p hp
    have hcounted := hw p (hholds p hp)
    rwa [BackupWorld.Counted, ← hdb] at hcounted
  rw [BackupRun.step]
  dsimp only
  rw [hw']
  cases result with
  | error err => exact hcovered h
  | ok done =>
    have hsame : Uploading plan 1 w := h
    cases hadvance : plan.advanceLatest with
    | false => exact hcovered (hsame.still hadvance)
    | true => exact fun p hp => hsame.justified hadvance p (hholds p hp)

/-- A statement that meets its guard keeps the invariant. -/
theorem inv_step {answer : Answer} (h : s.Inv) (hguard : (BackupOp.step answer).Guarded s) :
    (s.step answer).Inv := by
  obtain ⟨w, targets, point⟩ := s
  cases point with
  | idle => exact h
  | returned result => exact h
  | vaultState masterKey =>
    rw [BackupRun.step]
    cases answer.refused <;> exact h
  | vaultConfig masterKey hasVaultState =>
    rw [BackupRun.step]
    cases answer.refused <;> exact h
  | inodeCount masterKey hasVaultState hasVaultConfig =>
    rw [BackupRun.step]
    cases answer.refused <;> exact h
  | dekCount masterKey hasVaultState hasVaultConfig inodeCount =>
    rw [BackupRun.step]
    cases answer.refused <;> exact h
  | previousInodeCount masterKey health =>
    rw [BackupRun.step]
    cases answer.refused with
    | some message => exact h
    | none => exact ⟨h, rfl⟩
  | previousDekCount masterKey health previous =>
    obtain ⟨hcovered, hprevious⟩ := h
    rw [BackupRun.step]
    cases answer.refused with
    | some message => exact hcovered
    | none =>
      constructor
      · exact hcovered
      · intro hadvance provider hwhole
        obtain ⟨hinodes, hdeks⟩ := hcovered provider hwhole
        rw [← hprevious] at hinodes
        exact whole_of_advance hadvance hinodes hdeks
  | clearFiles plan =>
    rw [BackupRun.step]
    cases answer.refused with
    | some message => exact h.covered
    | none => exact { covered := h.covered, justified := h.justified }
  | vacuum plan =>
    rw [BackupRun.step]
    cases answer.refused with
    | some message =>
      dsimp only
      split <;> exact h.covered
    | none =>
      refine ⟨⟨h.covered, h.justified⟩, ?_⟩
      intro snapshot hsnapshot
      have heq : w.db = snapshot := by
        simpa [BackupRun.put, BackupWorld.setPlaintext] using hsnapshot
      rw [← heq]
      exact hguard
  | kdfParams plan =>
    obtain ⟨hdecided, hfits⟩ := h
    rw [BackupRun.step]
    cases answer.refused with
    | some message => exact hdecided.covered
    | none =>
      dsimp only
      split
      · exact hdecided.covered
      · exact ⟨hdecided, hfits⟩
  | encrypt plan kdf => exact inv_encrypt h.1 h.2
  | deletePlaintext plan encrypted =>
    obtain ⟨hdecided, hfits⟩ := h
    rw [BackupRun.step]
    cases encrypted with
    | error err =>
      dsimp only
      split <;> exact hdecided.covered
    | ok done =>
      cases hrefused : answer.refused with
      | some message => exact hdecided.covered
      | none => exact ⟨⟨hdecided.covered, hdecided.justified⟩, hfits rfl⟩
  | giveUp plan err =>
    rw [BackupRun.step]
    dsimp only
    split <;> exact h
  | encryptedSize plan =>
    obtain ⟨hdecided, hfits⟩ := h
    have hstart : Uploading plan 0 w :=
      ⟨hfits, hdecided.justified, fun _ => hdecided.covered, fun _ => hdecided.covered⟩
    rw [BackupRun.step]
    dsimp only
    split
    · exact hdecided.covered
    · cases answer.refused with
      | some message => exact hdecided.covered
      | none =>
        exact inv_nextTarget (s := ⟨w, targets, .idle⟩) { createdAt := answer.clock } hstart targets
  | recordAttempt plan up target rest =>
    rw [BackupRun.step]
    cases hrefused : answer.refused with
    | some message => exact hguard (by rw [hrefused]; rfl)
    | none => exact ⟨h.fits, h.justified, h.still, h.unsuccessful⟩
  | uploadSnapshot plan up target rest attempt => exact inv_uploadSnapshot h
  | uploadLatest plan up target rest => exact inv_uploadLatest h.1 h.2 hguard
  | updateStatus plan up target rest lastError => exact inv_updateStatus h hguard
  | deleteEncrypted plan result => exact inv_deleteEncrypted h
  | writeInodeCount plan =>
    rw [BackupRun.step]
    cases hrefused : answer.refused with
    | some message => exact hguard (by rw [hrefused]; rfl)
    | none => exact ⟨h, readSnapshotCounter_set _ _ _⟩
  | writeDekCount plan =>
    obtain ⟨hwhole, hinodes⟩ := h
    rw [BackupRun.step]
    cases hrefused : answer.refused with
    | some message => exact hguard (by rw [hrefused]; rfl)
    | none =>
      intro provider hheld
      have hhealth := hwhole provider hheld
      constructor
      · show 0 < (readSnapshotCounter _ (setSystemConfigValue _ _ w.db)).getD 0
        rw [readSnapshotCounter_set_of_ne (by decide), hinodes]
        exact Int.natCast_pos.mpr hhealth.inodes
      · show 0 < (readSnapshotCounter _ (setSystemConfigValue _ _ w.db)).getD 0
        rw [readSnapshotCounter_set]
        exact Int.natCast_pos.mpr hhealth.deks

/-! ## Every operation -/

/-- Between runs, every whole object is covered. -/
theorem inv_of_isIdle {point : BackupPoint P} (hidle : point.isIdle = true) :
    (s.put w point).Inv ↔ w.Covered := by
  cases point with
  | idle => rfl
  | returned result => rfl
  | _ => cases hidle

/-- Nothing of the invariant looks at the database but at its counters. -/
theorem inv_change {db : MetadataDb P} (h : s.Inv)
    (hlegal : (BackupOp.change db).Legal s) : (s.put { s.world with db } s.point).Inv := by
  obtain ⟨w, targets, point⟩ := s
  have hinodes : readSnapshotCounter lastSnapshotInodeCountKey db =
      readSnapshotCounter lastSnapshotInodeCountKey w.db := by
    rw [readSnapshotCounter, (hlegal db rfl).1, readSnapshotCounter]
  have hdeks : readSnapshotCounter lastSnapshotDekCountKey db =
      readSnapshotCounter lastSnapshotDekCountKey w.db := by
    rw [readSnapshotCounter, (hlegal db rfl).2, readSnapshotCounter]
  have hcovered : w.Covered → ({ w with db } : BackupWorld P).Covered := by
    intro hw p hp
    have hcounted := hw p hp
    rwa [BackupWorld.Counted, ← hinodes, ← hdeks] at hcounted
  have hdecided : ∀ plan : BackupPlan P, Decided plan w → Decided plan { w with db } :=
    fun plan hplan => ⟨hcovered hplan.covered, hplan.justified⟩
  have huploading : ∀ (plan : BackupPlan P) (n : ℕ), Uploading plan n w →
      Uploading plan n { w with db } := by
    intro plan n hplan
    exact ⟨hplan.fits, hplan.justified, fun hstill => hcovered (hplan.still hstill),
      fun hzero => hcovered (hplan.unsuccessful hzero)⟩
  cases point with
  | previousDekCount masterKey health previous => exact ⟨hcovered h.1, h.2.trans hinodes.symm⟩
  | clearFiles plan => exact hdecided plan h
  | vacuum plan => exact hdecided plan h
  | kdfParams plan => exact ⟨hdecided plan h.1, h.2⟩
  | encrypt plan kdf => exact ⟨hdecided plan h.1, h.2⟩
  | deletePlaintext plan encrypted => exact ⟨hdecided plan h.1, h.2⟩
  | encryptedSize plan => exact ⟨hdecided plan h.1, h.2⟩
  | recordAttempt plan up target rest => exact huploading plan _ h
  | uploadSnapshot plan up target rest attempt => exact huploading plan _ h
  | uploadLatest plan up target rest => exact ⟨h.1, huploading plan _ h.2⟩
  | updateStatus plan up target rest lastError => exact huploading plan _ h
  | deleteEncrypted plan result =>
    cases result with
    | error err => exact hcovered h
    | ok done => exact huploading plan 1 h
  | writeInodeCount plan => exact h
  | writeDekCount plan => exact ⟨h.1, hinodes.trans h.2⟩
  | _ => exact hcovered h

/-- An operation that meets its guard keeps the invariant. -/
theorem inv_apply {op : BackupOp P} (h : s.Inv) (hlegal : op.Legal s) (hguard : op.Guarded s) :
    (op.apply s).Inv := by
  cases op with
  | start masterKey targets =>
    rw [BackupOp.apply]
    split
    · rename_i hidle
      exact (inv_of_isIdle (s := s) (w := s.world) hidle).mp h
    · exact h
  | step answer => exact inv_step h hguard
  | change db => exact inv_change h hlegal
  | stop => exact hguard

/-- A statement other than the upload of a latest object moves none. -/
theorem latest_step (answer : Answer)
    (h : ∀ plan up target rest, s.point ≠ .uploadLatest plan up target rest) :
    (s.step answer).world.latest = s.world.latest := by
  obtain ⟨w, targets, point⟩ := s
  cases point with
  | uploadLatest plan up target rest => exact absurd rfl (h plan up target rest)
  | _ =>
    rw [BackupRun.step]
    try dsimp only
    repeat' split
    all_goals rfl

/-- An operation keeps a whole vault under every latest key. -/
theorem keepsWhole_apply (op : BackupOp P) (h : s.Inv) : KeepsWhole s (op.apply s) := by
  have hkeep : ∀ t : BackupRun P, t.world.latest = s.world.latest → KeepsWhole s t := by
    intro t ht provider hwhole
    rwa [BackupWorld.HoldsWhole, ht]
  cases op with
  | start masterKey targets =>
    apply hkeep
    rw [BackupOp.apply]
    split <;> rfl
  | change db => exact hkeep _ rfl
  | stop => exact hkeep _ rfl
  | step answer =>
    by_cases hupload : ∃ plan up target rest, s.point = .uploadLatest plan up target rest
    · obtain ⟨plan, up, target, rest, hpoint⟩ := hupload
      obtain ⟨w, targets, point⟩ := s
      cases hpoint
      obtain ⟨hadvance, hsame⟩ := h
      intro provider hwhole
      rw [BackupOp.apply, BackupRun.step]
      dsimp only
      cases hobject : w.encrypted plan.stamp with
      | none => exact hwhole
      | some object =>
        have hput : (w.putLatest target.providerName object).HoldsWhole provider :=
          hsame.holdsWhole_putLatest hadvance hobject hwhole
        cases answer.upload with
        | none => exact hput
        | some err =>
          dsimp only
          split
          · exact hput
          · exact hwhole
    · apply hkeep
      apply latest_step
      intro plan up target rest hpoint
      exact hupload ⟨plan, up, target, rest, hpoint⟩

/-- The state after some operations. -/
def runOps (ops : List (BackupOp P)) (s : BackupRun P) : BackupRun P :=
  ops.foldl (fun t op => op.apply t) s

theorem inv_of_fresh (h : FreshProviders s) : s.Inv := by
  rw [BackupRun.Inv, h.idle]
  intro provider hwhole
  obtain ⟨object, hobject, -⟩ := hwhole
  rw [h.latest] at hobject
  cases hobject

/-- From providers without a latest object, in every run of operations that meet their guards, a
latest object that holds a whole vault at one moment holds one ever after. -/
theorem latest_stays_whole {earlier later : List (BackupOp P)} (hfresh : FreshProviders s)
    (hlegal : GuardedRuns.guarded BackupOp.apply BackupOp.Legal (earlier ++ later) s)
    (hguard : GuardedRuns.guarded BackupOp.apply BackupOp.Guarded (earlier ++ later) s) :
    KeepsWhole (runOps earlier s) (runOps later (runOps earlier s)) := by
  obtain ⟨hlegal, hlegal'⟩ := (GuardedRuns.guarded_append _ _ _ _ _).mp hlegal
  obtain ⟨hguard, hguard'⟩ := (GuardedRuns.guarded_append _ _ _ _ _).mp hguard
  have hinv : (runOps earlier s).Inv :=
    GuardedRuns.inv_of_guarded BackupOp.apply BackupOp.Legal BackupOp.Guarded BackupRun.Inv
      (fun _ _ h => inv_apply h) (inv_of_fresh hfresh) hlegal hguard _
      (GuardedRuns.mem_states_last _ _ _)
  apply GuardedRuns.rel_of_guarded BackupOp.apply BackupOp.Legal BackupOp.Guarded BackupRun.Inv
    KeepsWhole _ _ (fun _ _ h => inv_apply h) (fun op _ h _ _ => keepsWhole_apply op h) hinv hlegal'
    hguard'
  · exact fun _ _ h => h
  · exact fun _ _ _ hst htu provider hwhole => htu provider (hst provider hwhole)

/-- A vault with one file. -/
def oneFileDb : MetadataDb symbolic where
  vault :=
    { vaultState := some
        { masterKeySalt := [], argon2Params := ⟨2, 262144, 3, 1⟩, vaultId := "vault" }
      vaultConfig := some
        { salt := [7], parameterSetVersion := 2, memoryCostKib := 262144, timeCost := 3, lanes := 1 }
      deks := [{ dekId := 1, inodeId := 1, wrappedDek := .exact (.random 0, .random 1),
                 keyVersion := 1, vaultKeyGen := 1 }] }
  inodes := [{ id := 1, parentId := none, name := "a.txt", kind := "file", size := 5 }]

/-- The vault after its file has been deleted for good, with the counters of a run. -/
def emptiedDb (counters : String → Option String) : MetadataDb symbolic :=
  { oneFileDb with inodes := [], systemConfig := counters }

/-- The statements of a run on one provider that all succeed. -/
def backupSteps (n : ℕ) : List (BackupOp symbolic) :=
  .start (.random 9) [uploaderTarget "backblaze-b2"] :: List.replicate n (.step {})

def afterFirstRun : List (BackupOp symbolic) := .change oneFileDb :: backupSteps 19

theorem legal_backupSteps (n : ℕ) (s : BackupRun symbolic) :
    GuardedRuns.guarded BackupOp.apply BackupOp.Legal (backupSteps n) s := by
  apply GuardedRuns.guarded_of_mem
  intro op hop t db hchange
  rw [backupSteps, hchange] at hop
  simp at hop

/-- The counters behind a whole object keep an empty vault away from it. -/
theorem latest_stays_whole_emptied :
    KeepsWhole (runOps afterFirstRun {})
      (runOps (.change (emptiedDb (runOps afterFirstRun {}).world.db.systemConfig) ::
        backupSteps 19) (runOps afterFirstRun {})) := by
  apply latest_stays_whole
  · exact ⟨fun _ => rfl, rfl⟩
  · apply (GuardedRuns.guarded_append _ _ _ _ _).mpr
    constructor
    · exact ⟨fun db hdb => by cases hdb; exact ⟨rfl, rfl⟩, legal_backupSteps 19 _⟩
    · exact ⟨fun db hdb => by cases hdb; exact ⟨rfl, rfl⟩, legal_backupSteps 19 _⟩
  · repeat' apply And.intro
    all_goals first
      | exact trivial
      | exact fun h => absurd h (by decide)
      | exact fun _ => ⟨fun _ => ⟨rfl, rfl, by decide, by decide⟩,
          fun _ => ⟨rfl, rfl, by decide, by decide⟩⟩

/-- A run that stops behind its first latest object. -/
def stoppedRun : List (BackupOp symbolic) := .change oneFileDb :: (backupSteps 15 ++ [.stop])

/-- When a run stops between a latest object and the counters, a later one replaces the object by
the snapshot of an empty vault. -/
theorem latest_replaced_by_empty :
    ¬ ∀ (s : BackupRun symbolic) (earlier later : List (BackupOp symbolic)), FreshProviders s →
      GuardedRuns.guarded BackupOp.apply BackupOp.Legal (earlier ++ later) s →
      KeepsWhole (runOps earlier s) (runOps later (runOps earlier s)) := by
  intro hall
  have hlegal : GuardedRuns.guarded BackupOp.apply BackupOp.Legal
      (stoppedRun ++ .change (emptiedDb fun _ => none) :: backupSteps 15) {} := by
    apply (GuardedRuns.guarded_append _ _ _ _ _).mpr
    constructor
    · refine ⟨fun db hdb => by cases hdb; exact ⟨rfl, rfl⟩, ?_⟩
      apply (GuardedRuns.guarded_append _ _ _ _ _).mpr
      exact ⟨legal_backupSteps 15 _, (fun db hdb => by cases hdb), trivial⟩
    · exact ⟨fun db hdb => by cases hdb; exact ⟨rfl, rfl⟩, legal_backupSteps 15 _⟩
  have hwhole : (runOps stoppedRun {}).world.HoldsWhole "backblaze-b2" :=
    ⟨_, rfl, rfl, rfl, by decide, by decide⟩
  have hkeep := hall {} stoppedRun (.change (emptiedDb fun _ => none) :: backupSteps 15)
    ⟨fun _ => rfl, rfl⟩ hlegal
  obtain ⟨object, hobject, hstill⟩ := hkeep "backblaze-b2" hwhole
  cases hobject
  exact absurd hstill.inodes (by decide)

end Backup

end OmniDrive
