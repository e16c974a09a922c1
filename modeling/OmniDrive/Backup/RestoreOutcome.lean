import OmniDrive.Backup.Restore
import OmniDrive.Crypto.SymbolicChunks
import OmniDrive.Library.BudgetSearch

/-!
# What a restore finds

A restore is a search with a failure budget over what the passphrase makes of each object. It
finds a good snapshot where one can be reached, and the restore of a vault finds it at whichever
provider has it.
-/

namespace OmniDrive

open BudgetSearch

namespace Backup

variable {P : Primitives} (C : ChunkPrimitives P) (S : SnapshotFiles) (passphrase : String)

/-- The object opens with the passphrase to a database with a vault, which is then the file. -/
def Good (source : SnapshotSource) (key : String) (file : Bytes) : Prop :=
  ∃ encoded plaintext, source.downloadBytes key = .ok encoded ∧
    openBackup C passphrase encoded = .ok plaintext ∧ S.initDb plaintext = .ok file ∧
    S.hasVaultParams file = .ok true

/-- What a restore makes of an object: a database with a vault is found, an object that does not
decrypt is counted, and one that decrypts to something else than a database ends the search. -/
def trialOf (source : SnapshotSource) (key : String) : Trial Bytes :=
  match source.downloadBytes key with
  | .error _ => .harmless
  | .ok encoded => match openBackup C passphrase encoded with
    | .error err => if err = .backupDecryptFailed then .costly else .harmless
    | .ok plaintext => match writePlaintextSnapshotIfValid S plaintext with
      | (_, .error _) => .fatal
      | (file, .ok true) => .found file
      | (_, .ok false) => .harmless

def trials (source : SnapshotSource) : List (Trial Bytes) :=
  (candidateKeys source).map (trialOf C S passphrase source)

variable {C S passphrase} {source : SnapshotSource} {key : String} {file : Bytes}

/-- What is written is the file that was opened. -/
theorem writePlaintextSnapshotIfValid_eq_true {plaintext : Bytes} :
    writePlaintextSnapshotIfValid S plaintext = (file, .ok true) ↔
      S.initDb plaintext = .ok file ∧ S.hasVaultParams file = .ok true := by
  rw [writePlaintextSnapshotIfValid]
  cases hinit : S.initDb plaintext with
  | error message => simp
  | ok file' =>
    simp only [Prod.mk.injEq, Except.ok.injEq]
    apply and_congr_right
    intro hfile
    rw [hfile]
    cases S.hasVaultParams file with
    | error message => simp [Except.mapError]
    | ok found => simp [Except.mapError]

/-- Only SQLite fails. -/
theorem writePlaintextSnapshotIfValid_error (plaintext : Bytes) (err : DisasterRecoveryError)
    (h : (writePlaintextSnapshotIfValid S plaintext).2 = .error err) :
    ∃ message, err = .db message := by
  rw [writePlaintextSnapshotIfValid] at h
  split at h
  · rename_i message _
    injection h with herr
    exact ⟨message, herr.symm⟩
  · rename_i file' _
    cases hvault : S.hasVaultParams file' with
    | error message =>
      rw [hvault] at h
      injection h with herr
      exact ⟨message, herr.symm⟩
    | ok found =>
      rw [hvault] at h
      cases h

/-- Exactly the good objects are found. -/
theorem trialOf_eq_found : trialOf C S passphrase source key = .found file ↔
    Good C S passphrase source key file := by
  constructor
  · intro h
    rw [trialOf] at h
    split at h
    · cases h
    · rename_i encoded hdownload
      split at h
      · split at h
        · cases h
        · cases h
      · rename_i plaintext hopen
        split at h
        · cases h
        · rename_i file' hwrite
          injection h with hfile
          rw [hfile] at hwrite
          exact ⟨encoded, plaintext, hdownload, hopen,
            writePlaintextSnapshotIfValid_eq_true.mp hwrite⟩
        · cases h
  · intro ⟨encoded, plaintext, hdownload, hopen, hgood⟩
    rw [trialOf, hdownload]
    dsimp only
    rw [hopen]
    dsimp only
    rw [writePlaintextSnapshotIfValid_eq_true.mpr hgood]

/-! ## A restore is a search -/

/-- The state after a candidate, against the trial that it was. -/
def Follows (passphrase : String) (s : RestoreState P) (r : Verdict × RestoreState P) : Trial Bytes → Prop
  | .found file => r.1 = .restored ∧ r.2.output = some file
  | .harmless => r.1 = .next ∧ r.2.decryptFailures = s.decryptFailures ∧ r.2.cache.Sound passphrase
  | .costly => r.1 = (if maxDecryptFailures ≤ s.decryptFailures + 1 then .capped else .next) ∧
    r.2.decryptFailures = s.decryptFailures + 1 ∧ r.2.cache.Sound passphrase
  | .fatal => ∃ message, r.1 = .failed (.db message)

/-- One candidate. -/
theorem follows_tryCandidate (C : ChunkPrimitives P) (S : SnapshotFiles) (source : SnapshotSource)
    (key : String) {s : RestoreState P} (hcache : s.cache.Sound passphrase) :
    Follows passphrase s (tryCandidate C S passphrase source key s)
      (trialOf C S passphrase source key) := by
  rw [tryCandidate, trialOf]
  dsimp only
  cases hdownload : source.downloadBytes key with
  | error err => exact ⟨rfl, rfl, hcache⟩
  | ok encoded =>
    dsimp only
    obtain ⟨hopen, hsound⟩ := decryptMetadataBackup_sound C hcache encoded
    rw [← hopen]
    cases hdecrypt : decryptMetadataBackup C passphrase s.cache encoded with
    | mk opened cache =>
      rw [hdecrypt] at hsound
      cases opened with
      | error err =>
        by_cases herr : err = .backupDecryptFailed
        · simp only [if_pos herr]
          exact ⟨rfl, rfl, hsound⟩
        · simp only [if_neg herr]
          exact ⟨rfl, rfl, hsound⟩
      | ok plaintext =>
        dsimp only
        cases hwrite : writePlaintextSnapshotIfValid S plaintext with
        | mk file result =>
          cases result with
          | error err =>
            obtain ⟨message, hmessage⟩ := writePlaintextSnapshotIfValid_error plaintext err
              (by rw [hwrite])
            exact ⟨message, congrArg Verdict.failed hmessage⟩
          | ok found =>
            cases found with
            | true => exact ⟨rfl, rfl⟩
            | false => exact ⟨rfl, rfl, hsound⟩

/-- The state after several candidates, against the result of the search. -/
def Agrees (passphrase : String) (r : Verdict × RestoreState P) : Result Bytes → Prop
  | .found file => r.1 = .restored ∧ r.2.output = some file
  | .exhausted n => r.1 = .next ∧ r.2.decryptFailures = n ∧ r.2.cache.Sound passphrase
  | .capped => r.1 = .capped ∧ 0 < r.2.decryptFailures
  | .fatal => ∃ message, r.1 = .failed (.db message)

/-- The candidates of one source. -/
theorem agrees_tryKeys {keys : List String} {s : RestoreState P}
    (hcache : s.cache.Sound passphrase) :
    Agrees passphrase (tryKeys C S passphrase source keys s)
      (search maxDecryptFailures s.decryptFailures
        (keys.map (trialOf C S passphrase source))) := by
  induction keys generalizing s with
  | nil => exact ⟨rfl, rfl, hcache⟩
  | cons key keys ih =>
    have hstep := follows_tryCandidate C S source key hcache
    rw [List.map_cons, tryKeys]
    cases htry : tryCandidate C S passphrase source key s with
    | mk verdict s' =>
      rw [htry] at hstep
      cases htrial : trialOf C S passphrase source key with
      | found file =>
        rw [htrial] at hstep
        obtain ⟨hverdict, houtput⟩ := hstep
        dsimp only at hverdict
        rw [hverdict]
        exact ⟨rfl, houtput⟩
      | harmless =>
        rw [htrial] at hstep
        obtain ⟨hverdict, hfailures, hsound⟩ := hstep
        dsimp only at hverdict
        rw [hverdict, ← hfailures]
        exact ih hsound
      | costly =>
        rw [htrial] at hstep
        obtain ⟨hverdict, hfailures, hsound⟩ := hstep
        dsimp only at hverdict hfailures hsound ⊢
        rw [search_costly]
        by_cases hcap : maxDecryptFailures ≤ s.decryptFailures + 1
        · rw [if_pos hcap] at hverdict
          rw [if_pos hcap, hverdict]
          exact ⟨rfl, by dsimp only; omega⟩
        · rw [if_neg hcap] at hverdict
          rw [if_neg hcap, hverdict, ← hfailures]
          exact ih hsound
      | fatal =>
        rw [htrial] at hstep
        obtain ⟨message, hverdict⟩ := hstep
        dsimp only at hverdict
        rw [hverdict]
        exact ⟨message, rfl⟩

theorem agrees_trySource (C : ChunkPrimitives P) (S : SnapshotFiles) (source : SnapshotSource)
    {s : RestoreState P} (hcache : s.cache.Sound passphrase) :
    Agrees passphrase (trySource C S passphrase source s)
      (search maxDecryptFailures s.decryptFailures (trials C S passphrase source)) := by
  rw [trySource, trials]
  cases source.listSnapshotKeys 32 with
  | ok keys => exact agrees_tryKeys hcache
  | error err => exact agrees_tryKeys (s := s.report _) hcache

/-- The candidates of all sources, with one count of the failures. -/
theorem agrees_trySources (C : ChunkPrimitives P) (S : SnapshotFiles)
    (sources : List SnapshotSource) {s : RestoreState P} (hcache : s.cache.Sound passphrase) :
    Agrees passphrase (trySources C S passphrase sources s)
      (search maxDecryptFailures s.decryptFailures
        (sources.flatMap (trials C S passphrase))) := by
  induction sources generalizing s with
  | nil => exact ⟨rfl, rfl, hcache⟩
  | cons source sources ih =>
    have hsource := agrees_trySource C S source hcache
    rw [List.flatMap_cons, search_append, trySources]
    cases htry : trySource C S passphrase source s with
    | mk verdict s' =>
      rw [htry] at hsource
      cases hsearch : search maxDecryptFailures s.decryptFailures (trials C S passphrase source) with
      | found file =>
        rw [hsearch] at hsource
        obtain ⟨hverdict, houtput⟩ := hsource
        dsimp only at hverdict
        rw [hverdict]
        exact ⟨rfl, houtput⟩
      | exhausted n =>
        rw [hsearch] at hsource
        obtain ⟨hverdict, hfailures, hsound⟩ := hsource
        dsimp only at hverdict
        rw [hverdict, ← hfailures]
        exact ih hsound
      | capped =>
        rw [hsearch] at hsource
        obtain ⟨hverdict, hfailures⟩ := hsource
        dsimp only at hverdict
        rw [hverdict]
        exact ⟨rfl, hfailures⟩
      | fatal =>
        rw [hsearch] at hsource
        obtain ⟨message, hverdict⟩ := hsource
        dsimp only at hverdict
        rw [hverdict]
        exact ⟨message, rfl⟩

/-- The result of a restore, against the result of the search. -/
def RestoreEnds (r : Except DisasterRecoveryError Unit × Option Bytes) : Result Bytes → Prop
  | .found file => r = (.ok (), some file)
  | .exhausted 0 => ∃ errors, r.1 = .error (.downloadFailed errors)
  | .exhausted _ => r.1 = .error .backupDecryptFailed
  | .capped => r.1 = .error .backupDecryptFailed
  | .fatal => ∃ message, r.1 = .error (.db message)

/-- A restore ends as the search through the trials of all its sources. -/
theorem restoreEnds (C : ChunkPrimitives P) (S : SnapshotFiles) (passphrase : String)
    (manager : MetadataBackupProviderManager) :
    RestoreEnds (restoreMetadataFromCloud C S passphrase manager)
      (search maxDecryptFailures 0 (manager.sources.flatMap (trials C S passphrase))) := by
  have hempty : MetadataBackupKeyCache.Sound (P := P) passphrase [] := by
    intro entry hentry
    cases hentry
  have hall := agrees_trySources C S manager.sources (s := ({} : RestoreState P)) hempty
  rw [restoreMetadataFromCloud]
  cases htry : trySources C S passphrase manager.sources {} with
  | mk verdict s' =>
    rw [htry] at hall
    dsimp only at hall
    cases hsearch : search maxDecryptFailures 0
        (manager.sources.flatMap (trials C S passphrase)) with
    | found file =>
      rw [hsearch] at hall
      obtain ⟨hverdict, houtput⟩ := hall
      dsimp only at hverdict houtput
      rw [hverdict]
      exact congrArg (Prod.mk (Except.ok ())) houtput
    | exhausted n =>
      rw [hsearch] at hall
      obtain ⟨hverdict, hfailures, -⟩ := hall
      dsimp only at hverdict hfailures
      rw [hverdict]
      dsimp only
      rw [hfailures]
      cases n with
      | zero => exact ⟨s'.errors, rfl⟩
      | succ n => exact rfl
    | capped =>
      rw [hsearch] at hall
      obtain ⟨hverdict, hfailures⟩ := hall
      dsimp only at hverdict hfailures
      rw [hverdict]
      exact congrArg Except.error (if_pos hfailures)
    | fatal =>
      rw [hsearch] at hall
      obtain ⟨message, hverdict⟩ := hall
      dsimp only at hverdict
      rw [hverdict]
      exact ⟨message, rfl⟩

/-! ## Restoring a vault -/

/-- A text names the latest object. -/
def NamesLatest (text : String) : Prop := latestKey.toList <:+: text.toList

/-- The keys are looked at in their order, the first of them first. -/
theorem dedupObjectKeys_cons (key : String) (keys : List String) :
    ∃ rest, dedupObjectKeys (key :: keys) = key :: rest := by
  have hfold : ∀ (keys rest : List String), ∃ rest', keys.foldl (fun deduped key =>
      if key ∈ deduped then deduped else deduped ++ [key]) (key :: rest) = key :: rest' := by
    intro keys
    induction keys with
    | nil => exact fun rest => ⟨rest, rfl⟩
    | cons k keys ih =>
      intro rest
      rw [List.foldl_cons]
      split
      · exact ih rest
      · exact ih (rest ++ [k])
  exact hfold keys []

/-- No key is lost. -/
theorem mem_dedupObjectKeys {keys : List String} : key ∈ dedupObjectKeys keys ↔ key ∈ keys := by
  have hfold : ∀ (keys deduped : List String), key ∈ keys.foldl (fun deduped key =>
      if key ∈ deduped then deduped else deduped ++ [key]) deduped ↔ key ∈ deduped ∨ key ∈ keys := by
    intro keys
    induction keys with
    | nil => simp
    | cons k keys ih =>
      intro deduped
      rw [List.foldl_cons, ih, List.mem_cons]
      split
      · rename_i hk
        constructor
        · exact fun h => h.imp_right Or.inr
        · rintro (h | rfl | h)
          · exact Or.inl h
          · exact Or.inl hk
          · exact Or.inr h
      · rw [List.mem_append, List.mem_singleton, or_assoc]
  rw [dedupObjectKeys, hfold]
  simp

/-- A candidate that is passed over is reported under its key. -/
theorem errors_tryCandidate {s s' : RestoreState P}
    (h : tryCandidate C S passphrase source key s = (.next, s')) :
    ∃ text, s'.errors = s.errors ++ [source.providerName ++ " " ++ key ++ ": " ++ text] := by
  rw [tryCandidate] at h
  dsimp only at h
  split at h
  · rename_i err _
    injection h with _ hs
    rw [← hs]
    exact ⟨err.display, rfl⟩
  · split at h
    · rename_i err cache _
      split at h
      · injection h with _ hs
        rw [← hs]
        exact ⟨err.display, rfl⟩
      · injection h with _ hs
        rw [← hs]
        exact ⟨err.display, rfl⟩
    · split at h
      · cases h
      · cases h
      · injection h with _ hs
        rw [← hs]
        exact ⟨_, rfl⟩

/-- The errors of the candidates are added to those before. -/
theorem errors_tryKeys {keys : List String} {s s' : RestoreState P}
    (h : tryKeys C S passphrase source keys s = (.next, s')) : s.errors <+: s'.errors := by
  induction keys generalizing s with
  | nil =>
    injection h with _ hs
    rw [hs]
  | cons key keys ih =>
    rw [tryKeys] at h
    split at h
    · rename_i s₁ htry
      obtain ⟨text, herrors⟩ := errors_tryCandidate htry
      have hrest := ih h
      rw [herrors] at hrest
      exact (List.prefix_append _ _).trans hrest
    · rename_i hstopped
      exact absurd h (hstopped s')

/-- A source with nothing to restore is reported with its latest object. -/
theorem errors_trySource {s s' : RestoreState P}
    (h : trySource C S passphrase source s = (.next, s')) :
    ∃ text ∈ s'.errors, NamesLatest text := by
  have hkeys : ∀ s₀ : RestoreState P,
      tryKeys C S passphrase source (candidateKeys source) s₀ = (.next, s') →
      ∃ text ∈ s'.errors, NamesLatest text := by
    intro s₀ h
    obtain ⟨rest, hrest⟩ : ∃ rest, candidateKeys source = latestKey :: rest :=
      dedupObjectKeys_cons _ _
    rw [hrest, tryKeys] at h
    split at h
    · rename_i s₁ htry
      obtain ⟨text, herrors⟩ := errors_tryCandidate htry
      have hprefix := errors_tryKeys h
      rw [herrors] at hprefix
      refine ⟨_, hprefix.subset (List.mem_append_right _ (List.mem_singleton_self _)), ?_⟩
      rw [NamesLatest]
      simp only [String.toList_append]
      exact ⟨source.providerName.toList ++ " ".toList, ": ".toList ++ text.toList, by simp⟩
    · rename_i hstopped
      exact absurd h (hstopped s')
  rw [trySource] at h
  exact hkeys _ h

/-- An element stands in its list when that is joined. -/
theorem infix_intercalate_of_mem {α : Type} {sep x : List α} {l : List (List α)} (h : x ∈ l) :
    x <:+: sep.intercalate l := by
  induction l with
  | nil => cases h
  | cons y l ih =>
    by_cases hl : l = []
    · rw [hl, List.mem_singleton] at h
      rw [hl, h]
      simp
    · rw [List.intercalate_cons_of_ne_nil hl]
      rcases List.mem_cons.mp h with h | h
      · rw [h]
        exact List.infix_append_of_infix_left (List.infix_append_left)
      · exact List.infix_append_of_infix_right (ih h)

/-- A failed download that names the latest object counts as a missing backup. -/
theorem mapRestoreDownloadError_downloadFailed (providerId : String) {errors : List String}
    (h : ∃ text ∈ errors, NamesLatest text) :
    ∃ message, mapRestoreDownloadError providerId (.downloadFailed errors) =
      .metadataNotFound message := by
  obtain ⟨text, htext, hlatest⟩ := h
  have hjoined : latestKey.toList <:+: (" | ".intercalate errors).toList := by
    rw [String.toList_intercalate]
    exact hlatest.trans (infix_intercalate_of_mem (List.mem_map_of_mem htext))
  have hlower : "latest.db.enc".toList <:+: latestKey.toList.map Char.toLower := by decide
  have hlowered : (toAsciiLowercase (" | ".intercalate errors)).toList =
      (" | ".intercalate errors).toList.map Char.toLower := String.toList_ofList
  have hcontains : containsText (toAsciiLowercase (" | ".intercalate errors))
      "latest.db.enc" = true := by
    rw [containsText, decide_eq_true_iff, hlowered]
    exact hlower.trans (hjoined.map Char.toLower)
  refine ⟨_, if_pos ?_⟩
  rw [hcontains, Bool.or_true]

/-- The one provider of a manager reports its latest object when there is nothing to restore. -/
theorem errors_restore_single {provider : MetadataBackupDownloadProvider} (errors : List String)
    (h : (restoreMetadataFromCloud C S passphrase { downloadProviders := [provider] }).1 =
      .error (.downloadFailed errors)) : ∃ text ∈ errors, NamesLatest text := by
  have hempty : MetadataBackupKeyCache.Sound (P := P) passphrase [] := by
    intro entry hentry
    cases hentry
  have hsource := agrees_trySource C S provider.source (s := ({} : RestoreState P)) hempty
  have hsources : trySources C S passphrase [provider.source] {} =
      trySource C S passphrase provider.source {} := by
    rw [trySources]
    split
    · rename_i s' htry
      rw [htry]
      rfl
    · rfl
  have hmanager : ({ downloadProviders := [provider] } : MetadataBackupProviderManager).sources =
      [provider.source] := rfl
  rw [restoreMetadataFromCloud, hmanager, hsources] at h
  cases htry : trySource C S passphrase provider.source {} with
  | mk verdict s' =>
    rw [htry] at h hsource
    cases verdict with
    | restored => cases h
    | next =>
      dsimp only at h
      rw [finalizeRestoreError] at h
      split at h
      · cases h
      · injection h with herr
        injection herr with herrors
        rw [← herrors]
        exact errors_trySource htry
    | capped =>
      rw [Agrees.eq_def] at hsource
      split at hsource
      · cases hsource.1
      · cases hsource.1
      · dsimp only at h
        rw [finalizeRestoreError, if_pos hsource.2] at h
        cases h
      · obtain ⟨message, hverdict⟩ := hsource
        cases hverdict
    | failed err =>
      rw [Agrees.eq_def] at hsource
      split at hsource
      · cases hsource.1
      · cases hsource.1
      · cases hsource.1
      · obtain ⟨message, hverdict⟩ := hsource
        injection hverdict with herr
        injection h with herr'
        rw [herr] at herr'
        cases herr'

section Join

variable {remote : String → MetadataBackupDownloadProvider} {now : ℤ} {providerId : String}
variable {db : RestoreDb}

/-- The provider is set up: its row is enabled and its secrets are unsealed. -/
def Ready (db : RestoreDb) (providerId : String) : Prop :=
  ∃ row, db.providerConfigs.find? (fun row => row.providerName = providerId) = some row ∧
    row.enabled ≠ 0 ∧ row.secrets = some (.ok ())

/-- The secrets of the provider are there but cannot be unsealed. -/
def Unreadable (db : RestoreDb) (providerId : String) : Prop :=
  ∃ row err, db.providerConfigs.find? (fun row => row.providerName = providerId) = some row ∧
    row.enabled ≠ 0 ∧ row.secrets = some (.error err)

/-- A known provider is set up, or lacks something, or has unreadable secrets. -/
theorem fromOnboardingDb_cases (remote : String → MetadataBackupDownloadProvider)
    (db : RestoreDb) (hknown : providerId ∈ knownProviders) :
    (Ready db providerId ∧ fromOnboardingDb remote db providerId =
        .ok { downloadProviders := [remote providerId] }) ∨
      fromOnboardingDb remote db providerId = .error .noConfiguredProviders ∨
      (Unreadable db providerId ∧ ∃ errors,
        fromOnboardingDb remote db providerId = .error (.downloadFailed errors)) := by
  rw [fromOnboardingDb]
  cases hfind : db.providerConfigs.find? (fun row => row.providerName = providerId) with
  | none => exact Or.inr (Or.inl rfl)
  | some row =>
    have hname : row.providerName = providerId := by simpa using List.find?_some hfind
    dsimp only
    by_cases henabled : row.enabled = 0
    · rw [if_pos henabled]
      exact Or.inr (Or.inl rfl)
    · rw [if_neg henabled]
      cases hsecrets : row.secrets with
      | none => exact Or.inr (Or.inl rfl)
      | some result =>
        cases result with
        | error err =>
          exact Or.inr (Or.inr ⟨⟨row, err, hfind, henabled, hsecrets⟩, _, rfl⟩)
        | ok u =>
          rw [hname]
          exact Or.inl ⟨⟨row, hfind, henabled, hsecrets⟩, if_pos hknown⟩

theorem fromOnboardingDb_of_ready (hknown : providerId ∈ knownProviders)
    (hready : Ready db providerId) : fromOnboardingDb remote db providerId =
      .ok { downloadProviders := [remote providerId] } := by
  obtain ⟨row, hfind, henabled, hsecrets⟩ := hready
  have hname : row.providerName = providerId := by simpa using List.find?_some hfind
  rw [fromOnboardingDb, hfind]
  dsimp only
  rw [if_neg henabled, hsecrets, hname]
  exact if_pos hknown

/-- The names of the known providers are not blank. -/
theorem trim_of_known (hknown : providerId ∈ knownProviders) :
    trim providerId = providerId ∧ providerId ≠ "" := by
  have hall : ∀ name ∈ knownProviders, trim name = name ∧ name ≠ "" := by decide
  exact hall providerId hknown

/-- What a restore from one provider comes to. -/
inductive ProviderEnds (C : ChunkPrimitives P) (S : SnapshotFiles) (passphrase : String)
    (remote : String → MetadataBackupDownloadProvider) (db : RestoreDb) (providerId : String) :
    Except RestoreError VaultRestoreReport × RestoreDb → Prop
  | restored {file : Bytes} {report : VaultRestoreReport} {db' : RestoreDb}
    (hfound : .found file ∈ trials C S passphrase (remote providerId).source)
    (hgrafted : db'.grafted = db.grafted ++ [file])
    (hconfigs : db'.providerConfigs = db.providerConfigs) :
    ProviderEnds C S passphrase remote db providerId (.ok report, db')
  | next {err : RestoreError} {db' : RestoreDb}
    (hkind : ∃ message, err = .incorrectPassphrase message ∨ err = .metadataNotFound message ∨
      err = .missingProviderConfig message)
    (hfound : Ready db providerId → trim passphrase ≠ "" →
      ¬ Reachable maxDecryptFailures (trials C S passphrase (remote providerId).source))
    (hgrafted : db'.grafted = db.grafted) (hconfigs : db'.providerConfigs = db.providerConfigs) :
    ProviderEnds C S passphrase remote db providerId (.error err, db')
  | stopped {err : RestoreError} {db' : RestoreDb}
    (hkind : ∃ message, err = .runtime message ∨ err = .snapshotApply message)
    (hcause : Unreadable db providerId ∨
      (.fatal ∈ trials C S passphrase (remote providerId).source ∧
        ¬ Reachable maxDecryptFailures (trials C S passphrase (remote providerId).source)) ∨
      ∃ file error, .found file ∈ trials C S passphrase (remote providerId).source ∧
        S.graftRestoredMetadataSnapshot file = .error error)
    (hgrafted : db'.grafted = db.grafted) (hconfigs : db'.providerConfigs = db.providerConfigs) :
    ProviderEnds C S passphrase remote db providerId (.error err, db')

/-- A restore from one provider. -/
theorem providerEnds (C : ChunkPrimitives P) (S : SnapshotFiles) (passphrase : String)
    (remote : String → MetadataBackupDownloadProvider) (now : ℤ) (db : RestoreDb)
    (hknown : providerId ∈ knownProviders) :
    ProviderEnds C S passphrase remote db providerId
      (performVaultRestore C S passphrase remote now providerId db) := by
  obtain ⟨htrim, hne⟩ := trim_of_known hknown
  rw [performVaultRestore]
  dsimp only
  rw [htrim, if_neg hne]
  by_cases hblank : trim passphrase = ""
  · rw [if_pos hblank]
    exact .next ⟨_, Or.inl rfl⟩ (fun _ hpass => absurd hblank hpass) rfl rfl
  rw [if_neg hblank]
  rcases fromOnboardingDb_cases remote db hknown with
    ⟨-, hboot⟩ | hboot | ⟨hunreadable, errors, hboot⟩
  · rw [hboot]
    dsimp only
    have hends := restoreEnds C S passphrase { downloadProviders := [remote providerId] }
    have hsources : ({ downloadProviders := [remote providerId] } :
        MetadataBackupProviderManager).sources.flatMap (trials C S passphrase) =
        trials C S passphrase (remote providerId).source := List.flatMap_singleton _ _
    rw [hsources] at hends
    have hreach := search_found_iff maxDecryptFailures 0
      (trials C S passphrase (remote providerId).source) (by decide)
    have hmiss : ∀ {ended}, search maxDecryptFailures 0
        (trials C S passphrase (remote providerId).source) = ended →
        (∀ file, ended ≠ .found file) →
        ¬ Reachable maxDecryptFailures (trials C S passphrase (remote providerId).source) := by
      intro ended hended hne hr
      obtain ⟨file, hfile⟩ := hreach.mpr hr
      exact hne file (hended.symm.trans hfile)
    cases hrestore : restoreMetadataFromCloud C S passphrase
        { downloadProviders := [remote providerId] } with
    | mk result staging =>
      rw [hrestore] at hends
      cases hsearch : search maxDecryptFailures 0
          (trials C S passphrase (remote providerId).source) with
      | found file =>
        rw [hsearch] at hends
        have hresult : (result, staging) = (.ok (), some file) := hends
        rw [hresult]
        dsimp only [Option.getD_some]
        cases hgraft : S.graftRestoredMetadataSnapshot file with
        | error err =>
          exact .stopped ⟨_, Or.inr rfl⟩ (Or.inr (Or.inr ⟨file, err, mem_of_search hsearch, hgraft⟩))
            rfl rfl
        | ok applied => exact .restored (mem_of_search hsearch) rfl rfl
      | exhausted n =>
        rw [hsearch] at hends
        have hnot := hmiss hsearch (fun file h => by cases h)
        cases n with
        | zero =>
          obtain ⟨errors, hresult⟩ := hends
          dsimp only at hresult
          have hlatest := errors_restore_single errors
            (by rw [hrestore]; exact hresult)
          obtain ⟨message, hmessage⟩ := mapRestoreDownloadError_downloadFailed providerId hlatest
          rw [hresult]
          dsimp only
          rw [hmessage]
          exact .next ⟨message, Or.inr (Or.inl rfl)⟩ (fun _ _ => hnot) rfl rfl
        | succ n =>
          have hresult : result = .error .backupDecryptFailed := hends
          rw [hresult]
          exact .next ⟨_, Or.inl rfl⟩ (fun _ _ => hnot) rfl rfl
      | capped =>
        rw [hsearch] at hends
        have hnot := hmiss hsearch (fun file h => by cases h)
        have hresult : result = .error .backupDecryptFailed := hends
        rw [hresult]
        exact .next ⟨_, Or.inl rfl⟩ (fun _ _ => hnot) rfl rfl
      | fatal =>
        rw [hsearch] at hends
        have hnot := hmiss hsearch (fun file h => by cases h)
        have hmem : .fatal ∈ trials C S passphrase (remote providerId).source := by
          by_contra hno
          exact search_ne_fatal hno hsearch
        obtain ⟨message, hresult⟩ := hends
        dsimp only at hresult
        rw [hresult]
        exact .stopped ⟨_, Or.inl rfl⟩ (Or.inr (Or.inl ⟨hmem, hnot⟩)) rfl rfl
  · rw [hboot]
    refine .next ⟨_, Or.inr (Or.inr rfl)⟩ ?_ rfl rfl
    intro hready
    rw [fromOnboardingDb_of_ready hknown hready] at hboot
    cases hboot
  · rw [hboot]
    exact .stopped ⟨_, Or.inl rfl⟩ (Or.inl hunreadable) rfl rfl

/-- Rows are read from the configurations only. -/
theorem Ready.congr {db' : RestoreDb} (h : Ready db providerId)
    (hconfigs : db'.providerConfigs = db.providerConfigs) : Ready db' providerId := by
  rw [Ready, hconfigs]
  exact h

theorem Unreadable.congr {db' : RestoreDb} (h : Unreadable db' providerId)
    (hconfigs : db'.providerConfigs = db.providerConfigs) : Unreadable db providerId := by
  rw [Unreadable, ← hconfigs]
  exact h

/-- A provider that is set up has readable secrets. -/
theorem Ready.not_unreadable (h : Ready db providerId) : ¬ Unreadable db providerId := by
  intro ⟨row, err, hfind, _, hsecrets⟩
  obtain ⟨row', hfind', -, hsecrets'⟩ := h
  rw [hfind] at hfind'
  rw [Option.some.inj hfind', hsecrets'] at hsecrets
  cases hsecrets

/-- After the answer of a provider with nothing to restore the loop goes on. -/
theorem tryProviders_next (rest : List String) (errors : JoinErrors) {err : RestoreError}
    {db' : RestoreDb}
    (hperform : performVaultRestore C S passphrase remote now providerId db = (.error err, db'))
    (hkind : ∃ message, err = .incorrectPassphrase message ∨ err = .metadataNotFound message ∨
      err = .missingProviderConfig message) :
    ∃ errors', tryProviders C S passphrase remote now (providerId :: rest) errors db =
      tryProviders C S passphrase remote now rest errors' db' := by
  obtain ⟨message, hkind⟩ := hkind
  rw [tryProviders, hperform]
  rcases hkind with hkind | hkind | hkind
  · rw [hkind]
    exact ⟨_, rfl⟩
  · rw [hkind]
    exact ⟨_, rfl⟩
  · rw [hkind]
    exact ⟨_, rfl⟩

/-- The loop finds a snapshot that can be reached at one of the providers, where none before
stops it. -/
theorem tryProviders_finds (now : ℤ)
    (hgraft : ∀ file, S.hasVaultParams file = .ok true →
      ∃ applied, S.graftRestoredMetadataSnapshot file = .ok applied)
    (hpassphrase : trim passphrase ≠ "") {front back : List String}
    (hknown : ∀ q ∈ front ++ providerId :: back, q ∈ knownProviders)
    (hfront : ∀ q ∈ front, ¬ Unreadable db q ∧ .fatal ∉ trials C S passphrase (remote q).source)
    (hready : Ready db providerId)
    (hreach : Reachable maxDecryptFailures (trials C S passphrase (remote providerId).source))
    (errors : JoinErrors) :
    ∃ report db' q file, q ∈ front ++ providerId :: back ∧
      .found file ∈ trials C S passphrase (remote q).source ∧
      tryProviders C S passphrase remote now (front ++ providerId :: back) errors db =
        (.ok report, db') ∧ db'.grafted = db.grafted ++ [file] := by
  have hgrafts : ∀ q file err, .found file ∈ trials C S passphrase (remote q).source →
      S.graftRestoredMetadataSnapshot file ≠ .error err := by
    intro q file err hfound herr
    obtain ⟨key, -, hkey⟩ := List.mem_map.mp hfound
    obtain ⟨-, -, -, -, -, hvault⟩ := trialOf_eq_found.mp hkey
    obtain ⟨applied, happlied⟩ := hgraft file hvault
    rw [happlied] at herr
    cases herr
  induction front generalizing db errors with
  | nil =>
    have hends := providerEnds C S passphrase remote now db (hknown providerId List.mem_cons_self)
    rw [List.nil_append, tryProviders]
    cases hperform : performVaultRestore C S passphrase remote now providerId db with
    | mk result db' =>
      rw [hperform] at hends
      cases hends with
      | @restored file report _ hfound hgrafted hconfigs =>
        exact ⟨report, db', providerId, file, List.mem_cons_self, hfound, rfl, hgrafted⟩
      | next hkind hmiss hgrafted hconfigs => exact absurd hreach (hmiss hready hpassphrase)
      | stopped hkind hcause hgrafted hconfigs =>
        rcases hcause with hcause | ⟨-, hcause⟩ | ⟨file, err, hfound, hcause⟩
        · exact absurd hcause hready.not_unreadable
        · exact absurd hreach hcause
        · exact absurd hcause (hgrafts _ file err hfound)
  | cons q front ih =>
    have hq : q ∈ knownProviders := hknown q List.mem_cons_self
    have hends := providerEnds C S passphrase remote now db hq
    have hrest : ∀ q' ∈ front ++ providerId :: back, q' ∈ q :: front ++ providerId :: back :=
      fun q' hq' => List.mem_cons_of_mem q hq'
    obtain ⟨hreadable, hfatal⟩ := hfront q List.mem_cons_self
    cases hperform : performVaultRestore C S passphrase remote now q db with
    | mk result db' =>
      rw [hperform] at hends
      cases hends with
      | @restored file report _ hfound hgrafted hconfigs =>
        refine ⟨report, db', q, file, List.mem_cons_self, hfound, ?_, hgrafted⟩
        rw [List.cons_append, tryProviders, hperform]
      | next hkind hmiss hgrafted hconfigs =>
        obtain ⟨errors', hnext⟩ := tryProviders_next (front ++ providerId :: back) errors
          hperform hkind
        have hfront' : ∀ q' ∈ front, ¬ Unreadable db' q' ∧
            .fatal ∉ trials C S passphrase (remote q').source := by
          intro q' hq'
          obtain ⟨hread, hno⟩ := hfront q' (List.mem_cons_of_mem q hq')
          exact ⟨fun h => hread (h.congr hconfigs), hno⟩
        obtain ⟨report, db'', q', file, hmem, hfound, hjoin, hgrafted'⟩ :=
          ih (fun q' hq' => hknown q' (hrest q' hq')) hfront' (hready.congr hconfigs) errors'
        rw [hgrafted] at hgrafted'
        rw [List.cons_append, hnext]
        exact ⟨report, db'', q', file, hrest q' hmem, hfound, hjoin, hgrafted'⟩
      | stopped hkind hcause hgrafted hconfigs =>
        rcases hcause with hcause | ⟨hcause, -⟩ | ⟨file, err, hfound, hcause⟩
        · exact absurd hcause hreadable
        · exact absurd hcause hfatal
        · exact absurd hcause (hgrafts _ file err hfound)

/-- Where no provider has anything good, the loop ends with an error and grafts nothing. -/
theorem tryProviders_none {ids : List String} (hknown : ∀ q ∈ ids, q ∈ knownProviders)
    (hnone : ∀ q ∈ ids, ∀ file, .found file ∉ trials C S passphrase (remote q).source)
    (errors : JoinErrors) :
    ∃ err db', tryProviders C S passphrase remote now ids errors db = (.error err, db') ∧
      db'.grafted = db.grafted := by
  induction ids generalizing db errors with
  | nil => exact ⟨_, db, rfl, rfl⟩
  | cons q ids ih =>
    have hends := providerEnds C S passphrase remote now db (hknown q List.mem_cons_self)
    cases hperform : performVaultRestore C S passphrase remote now q db with
    | mk result db' =>
      rw [hperform] at hends
      cases hends with
      | restored hfound hgrafted hconfigs => exact absurd hfound (hnone q List.mem_cons_self _)
      | next hkind hmiss hgrafted hconfigs =>
        obtain ⟨errors', hnext⟩ := tryProviders_next ids errors hperform hkind
        rw [hnext, ← hgrafted]
        exact ih (fun q' hq' => hknown q' (List.mem_cons_of_mem q hq'))
          (fun q' hq' => hnone q' (List.mem_cons_of_mem q hq')) errors'
      | @stopped err _ hkind hcause hgrafted hconfigs =>
        obtain ⟨message, hkind⟩ := hkind
        refine ⟨err, db', ?_, hgrafted⟩
        rw [tryProviders, hperform]
        rcases hkind with hkind | hkind
        · rw [hkind]
        · rw [hkind]

/-- The providers of a join are known. -/
theorem known_of_mem_tryOrder {preferred q : String} (hpreferred : preferred ∈ knownProviders)
    (hq : q ∈ tryOrder preferred db) : q ∈ knownProviders := by
  rcases List.mem_cons.mp hq with hq | hq
  · rw [hq]
    exact hpreferred
  · have hconfigured := (List.mem_filter.mp hq).1
    exact of_decide_eq_true (List.mem_filter.mp hconfigured).2

end Join

/-! ## Good snapshots are found -/

/-- A restore returns a good snapshot where one can be reached: fewer candidates than the cap
fail to decrypt before it, and none is something else than a database. The restore of a vault
then succeeds too, at whichever provider. Where nothing is good there is an error and no graft. -/
theorem restore_finds_good
    (hgraft : ∀ file, S.hasVaultParams file = .ok true →
      ∃ applied, S.graftRestoredMetadataSnapshot file = .ok applied) :
    (∀ manager : MetadataBackupProviderManager,
      Reachable maxDecryptFailures (manager.sources.flatMap (trials C S passphrase)) →
      ∃ source ∈ manager.sources, ∃ key ∈ candidateKeys source, ∃ file,
        Good C S passphrase source key file ∧
        restoreMetadataFromCloud C S passphrase manager = (.ok (), some file)) ∧
    (∀ manager : MetadataBackupProviderManager,
      (∀ source ∈ manager.sources, ∀ key ∈ candidateKeys source, ∀ file,
        ¬ Good C S passphrase source key file) →
      ∃ err, (restoreMetadataFromCloud C S passphrase manager).1 = .error err) ∧
    (∀ remote now preferred db front providerId back, preferred ∈ knownProviders →
      tryOrder preferred db = front ++ providerId :: back → trim passphrase ≠ "" →
      (∀ q ∈ front, ¬ Unreadable db q ∧ .fatal ∉ trials C S passphrase (remote q).source) →
      Ready db providerId →
      Reachable maxDecryptFailures (trials C S passphrase (remote providerId).source) →
      ∃ report db' q key file, q ∈ tryOrder preferred db ∧ key ∈ candidateKeys (remote q).source ∧
        Good C S passphrase (remote q).source key file ∧
        joinExistingRestore C S passphrase remote now preferred db = (.ok report, db') ∧
        db'.grafted = db.grafted ++ [file]) ∧
    ∀ remote now preferred db, preferred ∈ knownProviders →
      (∀ q ∈ tryOrder preferred db, ∀ key ∈ candidateKeys (remote q).source, ∀ file,
        ¬ Good C S passphrase (remote q).source key file) →
      ∃ err db', joinExistingRestore C S passphrase remote now preferred db = (.error err, db') ∧
        db'.grafted = db.grafted := by
  have hfound : ∀ {source file}, .found file ∈ trials C S passphrase source →
      ∃ key ∈ candidateKeys source, Good C S passphrase source key file := by
    intro source file hmem
    obtain ⟨key, hkey, htrial⟩ := List.mem_map.mp hmem
    exact ⟨key, hkey, trialOf_eq_found.mp htrial⟩
  refine ⟨?_, ?_, ?_, ?_⟩
  · intro manager hreach
    obtain ⟨file, hsearch⟩ := (search_found_iff maxDecryptFailures 0 _
      (by decide)).mpr hreach
    have hends := restoreEnds C S passphrase manager
    rw [hsearch] at hends
    obtain ⟨source, hsource, hmem⟩ := List.mem_flatMap.mp (mem_of_search hsearch)
    obtain ⟨key, hkey, hgood⟩ := hfound hmem
    exact ⟨source, hsource, key, hkey, file, hgood, hends⟩
  · intro manager hnone
    have hends := restoreEnds C S passphrase manager
    cases hsearch : search maxDecryptFailures 0
        (manager.sources.flatMap (trials C S passphrase)) with
    | found file =>
      obtain ⟨source, hsource, hmem⟩ := List.mem_flatMap.mp (mem_of_search hsearch)
      obtain ⟨key, hkey, hgood⟩ := hfound hmem
      exact absurd hgood (hnone source hsource key hkey file)
    | exhausted n =>
      rw [hsearch] at hends
      cases n with
      | zero =>
        obtain ⟨errors, hresult⟩ := hends
        exact ⟨_, hresult⟩
      | succ n => exact ⟨_, hends⟩
    | capped =>
      rw [hsearch] at hends
      exact ⟨_, hends⟩
    | fatal =>
      rw [hsearch] at hends
      obtain ⟨message, hresult⟩ := hends
      exact ⟨_, hresult⟩
  · intro remote now preferred db front providerId back hpreferred horder hpassphrase hfront
      hready hreach
    have hknown : ∀ q ∈ front ++ providerId :: back, q ∈ knownProviders := by
      rw [← horder]
      exact fun q hq => known_of_mem_tryOrder hpreferred hq
    obtain ⟨report, db', q, file, hq, hmem, hjoin, hgrafted⟩ :=
      tryProviders_finds now hgraft hpassphrase hknown hfront hready hreach {}
    obtain ⟨key, hkey, hgood⟩ := hfound hmem
    rw [joinExistingRestore, horder]
    exact ⟨report, db', q, key, file, hq, hkey, hgood, hjoin, hgrafted⟩
  · intro remote now preferred db hpreferred hnone
    apply tryProviders_none
    · exact fun q hq => known_of_mem_tryOrder hpreferred hq
    · intro q hq file hmem
      obtain ⟨key, hkey, hgood⟩ := hfound hmem
      exact hnone q hq key hkey file hgood

/-- SQLite and a graft that take every file. -/
def plainFiles : SnapshotFiles where
  stagingPath := "restore-staging.db"
  initDb := .ok
  hasVaultParams _ := .ok true
  graftRestoredMetadataSnapshot _ :=
    .ok { vaultId := "vault", restoredInodes := 1, restoredRevisions := 1 }

/-- A backup object with the given tag. -/
def sampleBackup (tag : GcmTag) : Bytes :=
  MetadataBackupParsed.encode
    { kdf := { parameterSetVersion := 1, salt := [0], memoryCostKib := 1, timeCost := 1, lanes := 1 }
      nonce := symbolicChunks.randomNonce 0
      ciphertext := [7]
      tag }

def goodBackup : Bytes := sampleBackup (padTo 16 [3, 28])

def damagedBackup : Bytes := sampleBackup (padTo 16 [])

/-- A bucket where all objects are damaged but the oldest snapshot. -/
def damagedBucket (snapshots : List String) : MetadataBackupDownloadProvider where
  providerName := "scaleway"
  listing := .ok ("1" :: snapshots)
  object key := .ok (if key = "1" then goodBackup else damagedBackup)

/-- Two damaged objects before a good one are passed over, at the second provider that is tried;
the first one is not set up. -/
theorem restore_finds_good_after_two :
    (∃ key ∈ candidateKeys (damagedBucket ["2"]).source, ∃ file,
      Good symbolicChunks plainFiles "p" (damagedBucket ["2"]).source key file ∧
      restoreMetadataFromCloud symbolicChunks plainFiles "p"
        { downloadProviders := [damagedBucket ["2"]] } = (.ok (), some file)) ∧
    ∃ report db', (joinExistingRestore symbolicChunks plainFiles "p" (fun _ => damagedBucket ["2"])
      0 "backblaze-b2" { providerConfigs := [⟨"scaleway", 1, some (.ok ())⟩] }) =
        (.ok report, db') := by
  have hreach : Reachable maxDecryptFailures
      (trials symbolicChunks plainFiles "p" (damagedBucket ["2"]).source) := by
    apply (search_found_iff maxDecryptFailures 0 _ (by decide)).mp
    exact ⟨[7], by decide +kernel⟩
  have hall := @restore_finds_good symbolic symbolicChunks plainFiles "p" (fun file _ => ⟨_, rfl⟩)
  have hsources : ({ downloadProviders := [damagedBucket ["2"]] } :
      MetadataBackupProviderManager).sources.flatMap (trials symbolicChunks plainFiles "p") =
      trials symbolicChunks plainFiles "p" (damagedBucket ["2"]).source :=
    List.flatMap_singleton _ _
  constructor
  · obtain ⟨source, hsource, key, hkey, file, hgood, hrestore⟩ :=
      hall.1 { downloadProviders := [damagedBucket ["2"]] }
        (by rw [hsources]; exact hreach)
    rw [List.mem_singleton.mp hsource] at hkey hgood
    exact ⟨key, hkey, file, hgood, hrestore⟩
  · obtain ⟨report, db', q, key, file, -, -, -, hjoin, -⟩ :=
      hall.2.2.1 (fun _ => damagedBucket ["2"]) 0 "backblaze-b2"
        { providerConfigs := [⟨"scaleway", 1, some (.ok ())⟩] } ["backblaze-b2"] "scaleway" []
        (by decide) (by decide) (by decide) (by
          intro q hq
          rw [List.mem_singleton.mp hq]
          refine ⟨?_, by decide +kernel⟩
          intro ⟨row, err, hfind, _⟩
          cases hfind) ⟨_, rfl, by decide, rfl⟩ hreach
    exact ⟨report, db', hjoin⟩

/-- Three damaged objects hide the good one behind them. -/
theorem not_restore_finds_good : ¬ ∀ (manager : MetadataBackupProviderManager),
    (∃ source ∈ manager.sources, ∃ key ∈ candidateKeys source, ∃ file,
      Good symbolicChunks plainFiles "p" source key file) →
    (restoreMetadataFromCloud symbolicChunks plainFiles "p" manager).1 = .ok () := by
  intro h
  have hgood : Good symbolicChunks plainFiles "p" (damagedBucket ["2", "3"]).source "1" [7] := by
    apply trialOf_eq_found.mp
    decide +kernel
  have hok := h { downloadProviders := [damagedBucket ["2", "3"]] }
    ⟨_, List.mem_singleton_self _, "1", by decide +kernel, [7], hgood⟩
  have hfailed : (restoreMetadataFromCloud symbolicChunks plainFiles "p"
      { downloadProviders := [damagedBucket ["2", "3"]] }).1 = .error .backupDecryptFailed := by
    decide +kernel
  rw [hfailed] at hok
  cases hok

end Backup

end OmniDrive
