import OmniDrive.Storage.WatcherRuns

/-!
# What the watcher skips

A file is skipped if its size, modification time and base revision are those of its entry in the map
of processed files, or if its hash is. As long as a file that is written meanwhile differs from its
entry in size or time, and a file does not change between its hash and its packing, the bytes of a
skipped file are stored.
-/

namespace OmniDrive

open StatementProgram GuardedRuns Packer FileWatcher WatchRun

variable {P : Primitives} {C : ChunkPrimitives P} {α : Type}

/-! ## Entries -/

/-- The hash of an entry is that of the bytes that were saved as its base. -/
def Truthful (C : ChunkPrimitives P) (written : List (ℤ × Bytes)) (e : TrackedFileState) : Prop :=
  ∃ v ∈ written, e.baseRevisionId = some v.1 ∧ e.contentHash = some (C.sha256Hex v.2)

/-- A file that looks like an entry has the hash of the entry. -/
def Discernible (C : ChunkPrimitives P) (e : TrackedFileState) (file : SourceFile) : Prop :=
  file.bytes.length = e.size → file.mtime = e.mtime → e.contentHash = some (C.sha256Hex file.bytes)

theorem Truthful.mono {written written' : List (ℤ × Bytes)} {e : TrackedFileState}
    (h : Truthful C written e) (hsub : ∀ v ∈ written, v ∈ written') : Truthful C written' e := by
  obtain ⟨v, hv, hentry⟩ := h
  exact ⟨v, hsub v hv, hentry⟩

/-- Bytes with the hash of an entry were saved. -/
theorem Truthful.saved (ideal : C.Ideal) {written : List (ℤ × Bytes)} {e : TrackedFileState}
    (h : Truthful C written e) {bytes : Bytes} (hhash : e.contentHash = some (C.sha256Hex bytes)) :
    ∃ revisionId, (revisionId, bytes) ∈ written := by
  obtain ⟨v, hv, -, hcontent⟩ := h
  have hbytes : v.2 = bytes :=
    ideal.sha256Hex_inj (Option.some.inj (hcontent.symm.trans hhash))
  exact ⟨v.1, hbytes ▸ hv⟩

/-- What runs of the watcher keep of its map. -/
structure TrackInv (C : ChunkPrimitives P) (s : WatchRun P) : Prop where
  truthful : ∀ path e, s.processedFiles path = some e → Truthful C s.written e
  discernible : ∀ path e file, s.processedFiles path = some e → s.disk path = some (.file file) →
    Discernible C e file
  waiting : ∀ x ∈ s.stage.inspected, ∀ e ∈ x.previous, Truthful C s.written e

section Steps

variable {watcher : FileWatcher} {s : WatchRun P}

/-- Steps that leave the files alone and track truthfully. -/
theorem TrackInv.moved (h : TrackInv C s) (st : WatchState P) (hdisk : st.disk = s.disk)
    {written : List (ℤ × Bytes)} (hwritten : ∀ v ∈ s.written, v ∈ written)
    (hentries : ∀ path e, st.processedFiles path = some e → s.processedFiles path = some e ∨
      Truthful C written e ∧ ∀ file, s.disk path = some (.file file) → Discernible C e file)
    {stage : WatchStage} (hstage : ∀ x ∈ stage.inspected, ∀ e ∈ x.previous, Truthful C written e)
    (outcome : Option (Except WatcherError Unit)) :
    TrackInv C { toWatchState := st, stage, outcome, written } where
  truthful path e he := by
    rcases hentries path e he with hold | hnew
    · exact (h.truthful path e hold).mono hwritten
    · exact hnew.1
  discernible path e file he hfile := by
    have hfile' : s.disk path = some (.file file) := hdisk ▸ hfile
    rcases hentries path e he with hold | hnew
    · exact h.discernible path e file hold hfile'
    · exact hnew.2 file hfile'
  waiting := hstage

/-! ## Steps that track nothing -/

/-- The files are the same, and no entry of the map is new. -/
structure OnlyForgets (s st : WatchState P) : Prop where
  disk : st.disk = s.disk
  entries : ∀ path e, st.processedFiles path = some e → s.processedFiles path = some e

theorem OnlyForgets.refl (s : WatchState P) : OnlyForgets s s := ⟨rfl, fun _ _ he => he⟩

theorem keeps_forgets_onStore {ε : Type} (s : WatchState P) (toError : ε → WatcherError)
    (p : FileProg P ε α) : (onStore toError p).Keeps (OnlyForgets s) :=
  Prog.keeps_zoom_of_frame (fun _ _ hst => ⟨hst.disk, hst.entries⟩) _

theorem keeps_forgets_inspectFile (s : WatchState P) (path : WatchPath) :
    (watcher.inspectFile path).Keeps (OnlyForgets s) := by
  rw [inspectFile]
  split
  · trivial
  apply (Prog.Keeps.query _).bind
  intro entry
  rcases entry with _ | file | _
  · trivial
  · apply (Prog.Keeps.ofExcept _).bind
    intro policyPath
    apply (Prog.Keeps.query _).bind
    intro policy
    apply (Prog.Keeps.ofOption _ _).bind
    intro policy
    apply (Prog.Keeps.ofExcept _).bind
    intro fileSize
    apply (keeps_forgets_onStore s id _).bind
    intro inodeId
    apply (keeps_forgets_onStore s WatcherError.db _).bind
    intro current
    apply (Prog.Keeps.query _).bind
    intro previous
    split <;> trivial
  · trivial

theorem keeps_forgets_handleDeletedPath (s : WatchState P) (path : WatchPath) :
    (handleDeletedPath path).Keeps (OnlyForgets s) := by
  have huntrack : (untrack path : WatchProg P Unit).Keeps (OnlyForgets s) := by
    apply Prog.Keeps.exec
    intro st h
    refine ⟨h.disk, fun path' e he => ?_⟩
    by_cases hpath : path' = path
    · simp [hpath] at he
    · exact h.entries path' e (by simpa [hpath] using he)
  rw [handleDeletedPath]
  apply huntrack.bind
  intro _
  apply (Prog.Keeps.ofExcept _).bind
  intro dbPath
  apply (keeps_forgets_onStore s WatcherError.db _).bind
  intro inodeId
  cases inodeId with
  | none => trivial
  | some inodeId =>
    apply (keeps_forgets_onStore s WatcherError.db _).bind
    intro inode
    cases inode with
    | none => trivial
    | some inode =>
      dsimp only
      split
      · trivial
      · exact Prog.Keeps.exec fun st h => ⟨h.disk, h.entries⟩

theorem TrackInv.forgets (h : TrackInv C s) {st : WatchState P}
    (hst : OnlyForgets s.toWatchState st) {stage : WatchStage}
    (hstage : ∀ x ∈ stage.inspected, ∀ e ∈ x.previous, Truthful C s.written e)
    (outcome : Option (Except WatcherError Unit)) :
    TrackInv C { s with toWatchState := st, stage, outcome } :=
  h.moved st hst.disk (fun _ hv => hv) (fun path e he => .inl (hst.entries path e he)) hstage outcome

theorem TrackInv.onDeleted (h : TrackInv C s) (path : WatchPath) (fault : Fault) :
    TrackInv C (s.onDeleted path fault) :=
  h.forgets (keeps_runUntil (keeps_forgets_handleDeletedPath _ path) (.refl _) fault)
    (fun _ hx => by cases hx) _

/-- The entry of a file that was looked at is the one of the map. -/
theorem previous_of_looked {path : WatchPath} {size : ℕ} {mtime : Option ℤ} {x : Inspected}
    {s st : WatchState P} (h : Looked s path size mtime (some x) st) :
    x.path = path ∧ x.previous = s.processedFiles path := by
  obtain ⟨dbPath, policy, fileSize, inodeId, files, -, -, -, hx⟩ := h.found
  split at hx
  · cases hx
  · rw [Option.some.inj hx]
    exact ⟨rfl, rfl⟩

/-- A file that is skipped after a look looks like its entry. -/
theorem entry_of_looked {path : WatchPath} {size : ℕ} {mtime : Option ℤ} {s st : WatchState P}
    (h : Looked s path size mtime none st) :
    ∃ e, s.processedFiles path = some e ∧ size = e.size ∧ mtime = e.mtime := by
  obtain ⟨dbPath, policy, fileSize, inodeId, files, -, -, -, hnone⟩ := h.found
  split at hnone
  · rename_i hsame
    rw [metadataUnchanged] at hsame
    cases he : s.processedFiles path with
    | none =>
      rw [he] at hsame
      cases hsame
    | some e =>
      rw [he, Option.any_some] at hsame
      simp only [Bool.and_eq_true, decide_eq_true_eq] at hsame
      exact ⟨e, rfl, hsame.1.1.symm, hsame.1.2.symm⟩
  · cases hnone

theorem TrackInv.onInspect (h : TrackInv C s) (path : WatchPath) (fault : Fault) :
    TrackInv C (s.onInspect watcher path fault) := by
  have hkeep : (watcher.inspectFile path).Keeps (OnlyForgets s.toWatchState) :=
    keeps_forgets_inspectFile s.toWatchState path
  have hst := keeps_runUntil hkeep (.refl _) fault
  rw [WatchRun.onInspect]
  rcases hrun : runUntil fault (watcher.inspectFile path) s.toWatchState with ⟨out, st⟩
  rw [hrun] at hst
  rcases out with e | _ | x
  · exact h.forgets hst (fun _ hx => by cases hx) _
  · exact h.forgets hst (fun _ hx => by cases hx) _
  · refine h.forgets hst (fun x' hx' e he => ?_) s.outcome
    obtain rfl : x = x' := Option.some.inj hx'
    cases fault with
    | none =>
      rcases inspected_of_run hrun with ⟨hnone, -⟩ | ⟨-, file, -, hlooked⟩
      · cases hnone
      · exact h.truthful x.path e (by rw [(previous_of_looked hlooked).1,
          ← (previous_of_looked hlooked).2]; exact he)
    | some f => cases hrun

/-! ## Hashing -/

/-- The entry that a file with the tracked hash gets. -/
def refreshed (x : Inspected) (prev : TrackedFileState) : TrackedFileState :=
  { size := x.size, mtime := x.mtime, baseRevisionId := prev.baseRevisionId,
    contentHash := prev.contentHash }

/-- Hashing changes at most the entry of a file with the tracked hash. -/
structure Hashed (C : ChunkPrimitives P) (x : Inspected) (s st : WatchState P) : Prop where
  state : st = s ∨ ∃ prev bytes, x.previous = some prev ∧ bytesAt x.path s = some bytes ∧
    prev.contentHash = some (C.sha256Hex bytes) ∧
    st = { s with
      processedFiles := Function.update s.processedFiles x.path (some (refreshed x prev)) }

/-- A query in front of a part of the watcher changes nothing. -/
theorem runUntil_query_bind {β : Type} {I : WatchState P → Prop} {f : WatchState P → β}
    {k : β → WatchProg P α} {s : WatchState P} (hs : I s) (hk : (k (f s)).Keeps I) (fault : Fault) :
    I (runUntil fault (Prog.query f >>= k) s).2 := by
  rcases fault with _ | ⟨n, e⟩
  · rw [runUntil, Prog.run_query_bind]
    exact hk.run hs
  · cases n with
    | zero =>
      rw [runUntil, Prog.cut_zero]
      exact hs
    | succ n =>
      rw [runUntil, Prog.cut_query_bind]
      exact hk.cut n hs

theorem hashed_of_runUntil (x : Inspected) (fault : Fault) (s : WatchState P) :
    Hashed C x s (runUntil fault (hashFile C x) s).2 := by
  rw [hashFile, readFile, Prog.bind_assoc]
  apply runUntil_query_bind ⟨.inl rfl⟩
  rcases hentry : s.disk x.path with _ | file | _
  · trivial
  · have hbytes : bytesAt x.path s = some file.bytes := by
      rw [bytesAt, hentry]
    cases hprevious : x.previous with
    | none => trivial
    | some prev =>
      change Prog.Keeps (Hashed C x s) (if prev.contentHash = some (C.sha256Hex file.bytes) then _
        else _)
      split
      · rename_i hhash
        apply Prog.Keeps.bind
        · apply Prog.Keeps.exec
          intro st hst
          refine ⟨.inr ⟨prev, file.bytes, hprevious, hbytes, hhash, ?_⟩⟩
          rw [refreshed, hhash]
          rcases hst.state with rfl | ⟨prev', bytes', -, -, -, rfl⟩
          · rfl
          · rw [Function.update_idem]
        · exact fun _ => trivial
      · trivial
  · trivial

/-- Nothing is returned by a hashing if the bytes have the tracked hash. -/
theorem skipped_of_run {x : Inspected} {s st : WatchState P}
    (h : (hashFile C x).run s = (.ok none, st)) {bytes : Bytes}
    (hbytes : bytesAt x.path s = some bytes) :
    ∃ prev, x.previous = some prev ∧ prev.contentHash = some (C.sha256Hex bytes) := by
  have hread : (readFile x.path : WatchProg P Bytes).run s = (.ok bytes, s) := by
    rw [run_readFile, hbytes]
    rfl
  rw [hashFile, Prog.run_bind_of_ok hread] at h
  cases hprevious : x.previous with
  | none =>
    rw [hprevious] at h
    cases h
  | some prev =>
    rw [hprevious] at h
    dsimp only at h
    split at h
    · rename_i hhash
      exact ⟨prev, rfl, hhash⟩
    · cases h

/-- A hashed file that goes on is the one that was looked at. -/
theorem TrackInv.onHash (h : TrackInv C s) {x : Inspected} (hx : x ∈ s.stage.inspected)
    (fault : Fault) : TrackInv C (s.onHash C x fault) := by
  have hst := hashed_of_runUntil (C := C) x fault s.toWatchState
  have hmoved : ∀ {stage : WatchStage} (outcome : Option (Except WatcherError Unit)),
      (∀ x' ∈ stage.inspected, x' = x) → TrackInv C { s with
        toWatchState := (runUntil fault (hashFile C x) s.toWatchState).2, stage, outcome } := by
    intro stage outcome hstage
    have hwaiting : ∀ x' ∈ stage.inspected, ∀ e ∈ x'.previous, Truthful C s.written e := by
      intro x' hx'
      rw [hstage x' hx']
      exact h.waiting x hx
    rcases hst.state with heq | ⟨prev, bytes, hprevious, hbytes, hhash, heq⟩
    · refine h.forgets ?_ hwaiting outcome
      rw [heq]
      exact .refl _
    · refine h.moved _ (by rw [heq]) (fun _ hv => hv) (fun path e he => ?_) hwaiting outcome
      rw [heq] at he
      by_cases hpath : path = x.path
      · right
        obtain rfl : refreshed x prev = e := by simpa [hpath] using he
        refine ⟨h.waiting x hx prev hprevious, fun file hfile _ _ => ?_⟩
        have hsame : file.bytes = bytes := by
          rw [bytesAt, ← hpath, hfile] at hbytes
          exact Option.some.inj hbytes
        rw [hsame]
        exact hhash
      · exact .inl (by simpa [hpath] using he)
  rw [WatchRun.onHash]
  rcases hrun : runUntil fault (hashFile C x) s.toWatchState with ⟨out, st⟩
  rw [hrun] at hmoved
  rcases out with e | _ | contentHash
  · exact hmoved _ (fun _ hx' => by cases hx')
  · exact hmoved _ (fun _ hx' => by cases hx')
  · exact hmoved s.outcome fun x' hx' => (Option.some.inj hx').symm

/-! ## Packing -/

/-- The file that is packed has the hash that was taken. -/
def SameHash (C : ChunkPrimitives P) (x : Inspected) (contentHash : String) (s : WatchState P) :
    Prop :=
  ∀ bytes, bytesAt x.path s = some bytes → C.sha256Hex bytes = contentHash

/-- A packing tracks the file as it was stored, or changes no entry. -/
theorem TrackInv.onPack (h : TrackInv C s) {x : Inspected} (hkeep : KeepsOld x)
    {contentHash : String} {fault : Fault} (hearly : FailsEarly C watcher x fault s.toWatchState)
    (hsame : SameHash C x contentHash s.toWatchState) :
    TrackInv C (s.onPack C watcher x contentHash fault) := by
  have hrefused : ∀ (st : WatchState P) (e : WatcherError), st.disk = s.disk →
      st.processedFiles = s.processedFiles → TrackInv C (s.finish (.error e) st) := by
    intro st e hdisk hentries
    exact h.forgets ⟨hdisk, fun path e he => hentries ▸ he⟩ (fun _ hx => by cases hx) _
  rw [WatchRun.onPack]
  cases hbytes : bytesAt x.path s.toWatchState with
  | none =>
    cases fault with
    | none =>
      rw [runUntil, run_packAndTrack_missing hkeep contentHash hbytes]
      exact hrefused _ _ rfl rfl
    | some f =>
      rw [runUntil, cut_packAndTrack_missing hkeep contentHash hbytes]
      exact hrefused _ _ rfl rfl
  | some bytes =>
    cases fault with
    | none =>
      rcases hsave : (saveFile C watcher.packer x.inodeId bytes (expectedParent x)).run s.files
        with ⟨e | result, files⟩
      · rw [runUntil, run_packAndTrack hkeep contentHash hbytes hsave]
        dsimp only [Except.mapError, Except.toOption, Option.elim]
        exact hrefused _ _ rfl rfl
      · rw [runUntil, run_packAndTrack hkeep contentHash hbytes hsave]
        dsimp only [Except.mapError, Except.toOption, Option.elim]
        let entry : TrackedFileState :=
          { size := x.size, mtime := x.mtime, baseRevisionId := some result.revisionId,
            contentHash := some contentHash }
        let st : WatchState P := { s.toWatchState with
          files, processedFiles := Function.update s.processedFiles x.path (some entry) }
        have hhash : contentHash = C.sha256Hex bytes := (hsame bytes hbytes).symm
        have hmem : (result.revisionId, bytes) ∈ s.written ++ [(result.revisionId, bytes)] :=
          List.mem_append_right _ (List.mem_singleton_self _)
        refine h.moved st rfl (fun _ hv => List.mem_append_left _ hv) (fun path e he => ?_)
          (fun _ hx => by cases hx) _
        by_cases hpath : path = x.path
        · right
          obtain rfl : entry = e := by simpa [st, hpath] using he
          refine ⟨⟨_, hmem, rfl, congrArg some hhash⟩, fun file hfile _ _ => ?_⟩
          rw [bytesAt, ← hpath, hfile] at hbytes
          rw [Option.some.inj hbytes]
          exact congrArg some hhash
        · exact .inl (by simpa [st, hpath] using he)
    | some f =>
      rcases f with ⟨m, e⟩
      cases m with
      | zero => exact hrefused _ e rfl rfl
      | succ m =>
        have hm : m ≤ (preparation C watcher.packer x.inodeId bytes).count s.files :=
          Nat.le_of_succ_le_succ (hearly _ rfl bytes hbytes)
        rw [runUntil, cut_packAndTrack hkeep contentHash hbytes hm]
        exact hrefused _ _ rfl rfl

end Steps

/-! ## Steps of the system -/

namespace WatchOp

/-- A file that is written differs from its entry in size or time unless it has the tracked hash,
and is not written between its hash and its packing. -/
def Steady (C : ChunkPrimitives P) (op : WatchOp) (s : WatchRun P) : Prop :=
  (∀ path file e, op = .change path (some (.file file)) → s.processedFiles path = some e →
    Discernible C e file) ∧
  ∀ fault x contentHash, op = .pack fault → s.stage = .packing x contentHash →
    SameHash C x contentHash s.toWatchState

/-- The path of the call that a step begins or continues. -/
def callPath (op : WatchOp) (s : WatchRun P) : Option WatchPath :=
  match op with
  | .event path _ | .scan path _ =>
    match s.stage with
    | .idle => some path
    | _ => none
  | .hash _ =>
    match s.stage with
    | .hashing x => some x.path
    | _ => none
  | .pack _ =>
    match s.stage with
    | .packing x _ => some x.path
    | _ => none
  | _ => none

/-- A step that ends a call without an error leaves the bytes of the file where they can be had
back. -/
def Settles (C : ChunkPrimitives P) (watcher : FileWatcher) (keys : UnlockedVaultKeys P)
    (op : WatchOp) (s : WatchRun P) : Prop :=
  ∀ path bytes, op.callPath s = some path → watcher.shouldIgnorePath path = false →
    bytesAt path s.toWatchState = some bytes → bytes ≠ [] →
      (op.step C watcher keys s).stage = .idle →
        (op.step C watcher keys s).outcome = some (.ok ()) →
          ∃ revisionId, Retrievable C keys revisionId bytes (op.step C watcher keys s).files

variable {watcher : FileWatcher} {keys : UnlockedVaultKeys P} {s : WatchRun P}

theorem trackInv (op : WatchOp) (h : TrackInv C s) (hsafe : op.Safe C watcher s)
    (hsteady : op.Steady C s) : TrackInv C (op.step C watcher keys s) := by
  cases op with
  | event path fault =>
    rw [step]
    split
    · exact h.onDeleted path fault
    · exact h.onInspect path fault
    · exact h
  | scan path fault =>
    rw [step]
    split
    · exact h.onInspect path fault
    · exact h
  | hash fault =>
    rw [step]
    split
    · rename_i x hstage
      exact h.onHash (by rw [hstage]; rfl) fault
    · exact h
  | pack fault =>
    rw [step]
    split
    · rename_i x contentHash hstage
      obtain ⟨hkeep, hearly⟩ := hsafe fault x contentHash rfl hstage
      exact h.onPack hkeep hearly (hsteady.2 fault x contentHash rfl hstage)
    · exact h
  | change path entry =>
    refine ⟨h.truthful, fun path' e file he hfile => ?_, h.waiting⟩
    rw [step] at he hfile
    by_cases hpath : path' = path
    · have hentry : entry = some (.file file) := by simpa [hpath] using hfile
      exact hsteady.1 path file e (by rw [hentry]) (hpath ▸ he)
    · exact h.discernible path' e file he (by simpa [hpath] using hfile)
  | lock => exact ⟨h.truthful, h.discernible, h.waiting⟩
  | unlock => exact ⟨h.truthful, h.discernible, h.waiting⟩
  | restart =>
    exact ⟨(fun _ _ he => by cases he), (fun _ _ _ he => by cases he), (fun _ hx => by cases hx)⟩
  | setPolicies policies policyTypes => exact ⟨h.truthful, h.discernible, h.waiting⟩
  | tick now => exact ⟨h.truthful, h.discernible, h.waiting⟩
  | promote revisionId => exact ⟨h.truthful, h.discernible, h.waiting⟩
  | save inodeId source =>
    rw [step, onSave]
    split
    · exact ⟨h.truthful, h.discernible, h.waiting⟩
    · refine ⟨fun path e he => ?_, h.discernible, fun x hx e he => ?_⟩
      · exact (h.truthful path e he).mono fun _ hv => List.mem_append_left _ hv
      · exact (h.waiting x hx e he).mono fun _ hv => List.mem_append_left _ hv

/-- A look that ends a call without an error finds the bytes saved. -/
theorem saved_of_onInspect (ideal : C.Ideal) (h : TrackInv C s) {path : WatchPath} {bytes : Bytes}
    {fault : Fault} (hwatched : watcher.shouldIgnorePath path = false)
    (hbytes : bytesAt path s.toWatchState = some bytes)
    (hidle : (s.onInspect watcher path fault).stage = .idle)
    (hok : (s.onInspect watcher path fault).outcome = some (.ok ())) :
    ∃ revisionId, (revisionId, bytes) ∈ (s.onInspect watcher path fault).written := by
  rw [onInspect] at hidle hok ⊢
  rcases hrun : runUntil fault (watcher.inspectFile path) s.toWatchState with ⟨e | _ | x, st⟩
  · rw [hrun] at hok
    cases hok
  · cases fault with
    | some f => cases hrun
    | none =>
      rcases inspected_of_run hrun with ⟨-, -, hignored | hdirectory⟩ | ⟨-, file, hfile, hlooked⟩
      · rw [hwatched] at hignored
        cases hignored
      · rw [bytesAt, hdirectory] at hbytes
        cases hbytes
      · obtain ⟨e, he, hsize, hmtime⟩ := entry_of_looked hlooked
        rw [bytesAt, hfile] at hbytes
        obtain rfl : file.bytes = bytes := Option.some.inj hbytes
        exact (h.truthful path e he).saved ideal (h.discernible path e file he hfile hsize hmtime)
  · rw [hrun] at hidle
    cases hidle

/-- So does every step that ends one. -/
theorem saved (ideal : C.Ideal) (op : WatchOp) (h : TrackInv C s) {path : WatchPath}
    {bytes : Bytes} (hpath : op.callPath s = some path)
    (hwatched : watcher.shouldIgnorePath path = false)
    (hbytes : bytesAt path s.toWatchState = some bytes)
    (hidle : (op.step C watcher keys s).stage = .idle)
    (hok : (op.step C watcher keys s).outcome = some (.ok ())) :
    ∃ revisionId, (revisionId, bytes) ∈ (op.step C watcher keys s).written := by
  cases op with
  | event path' fault =>
    cases hstage : s.stage with
    | idle =>
      rw [callPath, hstage] at hpath
      obtain rfl : path' = path := Option.some.inj hpath
      obtain ⟨file, hfile⟩ : ∃ file, s.disk path' = some (.file file) := by
        rw [bytesAt] at hbytes
        rcases hentry : s.disk path' with _ | file | _
        · rw [hentry] at hbytes
          cases hbytes
        · exact ⟨file, rfl⟩
        · rw [hentry] at hbytes
          cases hbytes
      have hstep : (event path' fault).step C watcher keys s = s.onInspect watcher path' fault := by
        rw [step, hstage, hwatched, hfile]
      rw [hstep] at hidle hok ⊢
      exact saved_of_onInspect ideal h hwatched hbytes hidle hok
    | hashing x => rw [callPath, hstage] at hpath; cases hpath
    | packing x contentHash => rw [callPath, hstage] at hpath; cases hpath
  | scan path' fault =>
    cases hstage : s.stage with
    | idle =>
      rw [callPath, hstage] at hpath
      obtain rfl : path' = path := Option.some.inj hpath
      have hstep : (scan path' fault).step C watcher keys s = s.onInspect watcher path' fault := by
        rw [step, hstage]
      rw [hstep] at hidle hok ⊢
      exact saved_of_onInspect ideal h hwatched hbytes hidle hok
    | hashing x => rw [callPath, hstage] at hpath; cases hpath
    | packing x contentHash => rw [callPath, hstage] at hpath; cases hpath
  | hash fault =>
    cases hstage : s.stage with
    | idle => rw [callPath, hstage] at hpath; cases hpath
    | hashing x =>
      rw [callPath, hstage] at hpath
      obtain rfl : x.path = path := Option.some.inj hpath
      have hstep : (hash fault).step C watcher keys s = s.onHash C x fault := by rw [step, hstage]
      rw [hstep, onHash] at hidle hok ⊢
      rcases hrun : runUntil fault (hashFile C x) s.toWatchState with ⟨e | _ | contentHash, st⟩
      · rw [hrun] at hok
        cases hok
      · cases fault with
        | some f => cases hrun
        | none =>
          obtain ⟨prev, hprevious, hhash⟩ := skipped_of_run hrun hbytes
          exact (h.waiting x (by rw [hstage]; rfl) prev hprevious).saved ideal hhash
      · rw [hrun] at hidle
        cases hidle
    | packing x contentHash => rw [callPath, hstage] at hpath; cases hpath
  | pack fault =>
    cases hstage : s.stage with
    | idle => rw [callPath, hstage] at hpath; cases hpath
    | hashing x => rw [callPath, hstage] at hpath; cases hpath
    | packing x contentHash =>
      rw [callPath, hstage] at hpath
      obtain rfl : x.path = path := Option.some.inj hpath
      have hstep : (pack fault).step C watcher keys s =
          s.onPack C watcher x contentHash fault := by rw [step, hstage]
      rw [hstep, onPack] at hok ⊢
      rcases hrun : runUntil fault (watcher.packAndTrack C x contentHash) s.toWatchState with
        ⟨e | result, st⟩
      · rw [hrun] at hok
        cases hok
      · rw [hbytes]
        exact ⟨result.revisionId, List.mem_append_right _ (List.mem_singleton_self _)⟩
  | change path' entry => cases hpath
  | lock => cases hpath
  | unlock => cases hpath
  | restart => cases hpath
  | setPolicies policies policyTypes => cases hpath
  | tick now => cases hpath
  | promote revisionId => cases hpath
  | save inodeId source => cases hpath

end WatchOp

/-- A file is packed, skipped for its entry, touched, and skipped for its hash. -/
def touchedFile : List WatchOp :=
  [.change ["a"] (some (.file ⟨[7], none⟩)), .event ["a"] none, .hash none, .pack none,
    .event ["a"] none, .change ["a"] (some (.file ⟨[7], some 5⟩)), .event ["a"] none, .hash none]

/-- The file has one byte wherever it is tracked or packed. -/
def OneByte (t : WatchRun symbolic) : Bool :=
  t.files.vault.draws ≤ 2 &&
  (t.processedFiles ["a"]).all (fun e => e.contentHash = some (symbolicChunks.sha256Hex [7])) &&
  match t.stage with
  | .idle => true
  | .hashing x => x.policy.enableVersioning ≠ 0
  | .packing x contentHash => x.policy.enableVersioning ≠ 0 &&
    bytesAt x.path t.toWatchState = some [7] && symbolicChunks.sha256Hex [7] = contentHash

end OmniDrive
