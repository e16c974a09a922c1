import OmniDrive.Library.GuardedRuns
import OmniDrive.Storage.History
import OmniDrive.Storage.RoundTrip

/-!
# Edits of a file

Writes of an inode with any of its revisions as the base, and promotions of older revisions. No
edit is lost: a revision that a write replaces without building on it stays as a copy beside the
file.
-/

namespace OmniDrive

open StatementProgram GuardedRuns Tables ByteFields Ancestry Packer History

variable {P : Primitives} {C : ChunkPrimitives P} {first inodeId : ℤ}

/-! ## The relation of two revisions -/

/-- What the relation of two revisions says about their ancestors. -/
def Related (h : History) (candidate current : ℤ) : Db.RevisionLineageRelation → Prop
  | .same => candidate = current
  | .candidateDescendsFromCurrent => h.RevisionAncestor current candidate
  | .currentDescendsFromCandidate => h.RevisionAncestor candidate current
  | .parallel => candidate ≠ current ∧ ¬ h.RevisionAncestor current candidate ∧
    ¬ h.RevisionAncestor candidate current

section Relation

variable {db : FileDb} (hinv : (historyOf db).Inv first)

include hinv

/-- The recursive query follows the parents. -/
theorem lineage_eq_chain (n : ℕ) {r : FileRevisionRecord} (hr : r ∈ db.fileRevisions) :
    Db.lineage db.fileRevisions n r.revisionId =
      chain (parentOf db.fileRevisions) n r.revisionId := by
  induction n generalizing r with
  | zero => rfl
  | succ n ih =>
    have hfind : db.fileRevisions.find? (·.revisionId = r.revisionId) = some r :=
      find?_of_mem hinv hr
    rw [Db.lineage, chain, parentOf, hfind]
    dsimp only [Option.bind_some]
    cases hparent : r.parentRevisionId with
    | none => rfl
    | some p =>
      obtain ⟨-, q, hq, rfl⟩ := hinv.parents r hr p hparent
      exact congrArg (r.revisionId :: ·) (ih hq)

/-- The query finds a revision and its ancestors, and no others. -/
theorem mem_lineage_iff {a : ℤ} {r : FileRevisionRecord} (hr : r ∈ db.fileRevisions) :
    a ∈ Db.lineage db.fileRevisions db.fileRevisions.length r.revisionId ↔
      a = r.revisionId ∨ (historyOf db).RevisionAncestor a r.revisionId := by
  rw [lineage_eq_chain hinv _ hr]
  refine ⟨mem_chain, mem_chain_of_rows (fun c p hp => ?_) hr⟩
  obtain ⟨r', hr', rfl, hparent⟩ := parentOf_eq_some (h := historyOf db) hp
  exact hinv.parents r' hr' p hparent

/-- Two revisions have one relation. -/
theorem related_unique {a c : ℤ} {x y : Db.RevisionLineageRelation}
    (hx : Related (historyOf db) a c x) (hy : Related (historyOf db) a c y) : x = y := by
  have hself : ∀ b, ¬ (historyOf db).RevisionAncestor b b := hinv.acyclic
  have hcross : (historyOf db).RevisionAncestor a c → ¬ (historyOf db).RevisionAncestor c a :=
    fun hac hca => hself a (hac.trans hca)
  cases x <;> cases y <;> simp only [Related] at hx hy <;> grind

/-- The relation of two revisions is found exactly. -/
theorem run_classifyRevisionLineage_eq {ε : Type} {w : FileWorld P} (hw : w.db = db)
    {candidate current : FileRevisionRecord} (hcandidate : candidate ∈ db.fileRevisions)
    (hcurrent : current ∈ db.fileRevisions) :
    ∃ relation, (Db.classifyRevisionLineage candidate.revisionId current.revisionId :
        FileProg P ε _).run w = (.ok relation, w) ∧
      Related (historyOf db) candidate.revisionId current.revisionId relation := by
  have hback := mem_lineage_iff hinv (a := current.revisionId) hcandidate
  have hforth := mem_lineage_iff hinv (a := candidate.revisionId) hcurrent
  rw [Db.classifyRevisionLineage]
  by_cases hsame : candidate.revisionId = current.revisionId
  · rw [if_pos hsame]
    exact ⟨.same, rfl, hsame⟩
  rw [if_neg hsame, Db.isRevisionAncestor, run_selectFiles_bind, hw]
  by_cases hdescends : current.revisionId ∈
      Db.lineage db.fileRevisions db.fileRevisions.length candidate.revisionId
  · rw [if_pos (decide_eq_true hdescends)]
    exact ⟨.candidateDescendsFromCurrent, rfl, (hback.mp hdescends).resolve_left (Ne.symm hsame)⟩
  rw [if_neg (by simpa using hdescends), Db.isRevisionAncestor, run_selectFiles_bind, hw]
  by_cases hascends : candidate.revisionId ∈
      Db.lineage db.fileRevisions db.fileRevisions.length current.revisionId
  · rw [if_pos (decide_eq_true hascends)]
    exact ⟨.currentDescendsFromCandidate, rfl, (hforth.mp hascends).resolve_left hsame⟩
  · rw [if_neg (by simpa using hascends)]
    exact ⟨.parallel, rfl, hsame, fun h => hdescends (hback.mpr (.inr h)),
      fun h => hascends (hforth.mpr (.inr h))⟩

end Relation

/-! ## Conflict copies -/

/-- The database refuses a new inode, or appends it. -/
theorem run_createInode_eq (parentId : Option ℤ) (name kind : String) (size : ℤ)
    (w : FileWorld P) :
    (∃ e, (Db.createInode parentId name kind size).run w = (.error e, w)) ∨
      (Db.createInode parentId name kind size).run w =
        (.ok (w.db.inodeSequence + 1), w.withDb (Db.appendInode parentId name kind size w.db)) := by
  rw [Db.createInode]
  rcases Db.validateInodeKind kind with e | _
  · exact .inl ⟨e, rfl⟩
  rw [Prog.ofExcept_ok, Prog.ret_bind, Prog.run_execReturning_bind]
  by_cases htaken : Db.nameTaken parentId name w.db = true
  · rw [if_pos htaken, if_pos htaken]
    exact .inl ⟨_, rfl⟩
  · rw [if_neg htaken, if_neg htaken]
    exact .inr rfl

/-- The search for a free name leaves the tables alone, or ends with a new inode. -/
theorem run_createConflictInode_eq (parentId : Option ℤ) (baseName kind : String) (size : ℤ)
    (left attempt : ℕ) (w : FileWorld P) :
    ((Db.createConflictInode parentId baseName kind size left attempt).run w).2 = w ∧
        (∀ created, ((Db.createConflictInode parentId baseName kind size left attempt).run w).1 =
          .ok created → created = none) ∨
      ∃ name, (Db.createConflictInode parentId baseName kind size left attempt).run w =
        (.ok (some (w.db.inodeSequence + 1, name)),
          w.withDb (Db.appendInode parentId name kind size w.db)) := by
  induction left generalizing attempt with
  | zero =>
    left
    refine ⟨rfl, fun created h => ?_⟩
    cases h
    rfl
  | succ left ih =>
    rw [Db.createConflictInode]
    obtain ⟨name, hname⟩ : ∃ name, name =
        if attempt = 0 then baseName else Db.disambiguateConflictCopyName baseName attempt :=
      ⟨_, rfl⟩
    rw [← hname]
    have hattempt := Prog.run_attempt (γ := DbError) (Db.createInode (P := P) parentId name kind
      size) w
    rcases run_createInode_eq parentId name kind size w with ⟨e, hrun⟩ | hrun
    · rw [hrun] at hattempt
      rw [Prog.run_bind_of_ok hattempt]
      cases e with
      | uniqueViolation => exact ih (attempt + 1)
      | rowNotFound => exact .inl ⟨rfl, fun _ h => by cases h⟩
      | foreignKeyViolation => exact .inl ⟨rfl, fun _ h => by cases h⟩
      | unavailable => exact .inl ⟨rfl, fun _ h => by cases h⟩
      | invalidArgument m => exact .inl ⟨rfl, fun _ h => by cases h⟩
    · rw [hrun] at hattempt
      rw [Prog.run_bind_of_ok hattempt]
      exact .inr ⟨name, rfl⟩

theorem historyOf_appendInode (parentId : Option ℤ) (name kind : String) (size : ℤ) (db : FileDb) :
    historyOf (Db.appendInode parentId name kind size db) = (historyOf db).withInode := by
  simp [historyOf, Db.appendInode, History.withInode]

/-- The row of a conflict copy. -/
def copyRow (source : FileRevisionRecord) (deviceId : Option String) (reason : String) (now : ℤ)
    (db : FileDb) : FileRevisionRecord :=
  { revisionId := db.revisionSequence + 1
    inodeId := db.inodeSequence + 1
    createdAt := now
    size := source.size
    isCurrent := true
    immutableUntil := source.immutableUntil
    deviceId
    parentRevisionId := some source.revisionId
    origin := "conflict_copy"
    conflictReason := some reason }

/-- The event of a conflict copy. -/
def copyEvent (source : FileRevisionRecord) (reason : String) (db : FileDb) : ConflictEventRecord :=
  { conflictId := db.conflictSequence + 1
    inodeId := source.inodeId
    winningRevisionId := source.revisionId
    losingRevisionId := db.revisionSequence + 1
    reason
    materializedInodeId := some (db.inodeSequence + 1)
    materializedRevisionId := some (db.revisionSequence + 1) }

/-- Copied references have the same contents. -/
theorem map_content_of_copies {rows rows' : List ChunkRefRecord}
    (h : List.Forall₂ (fun r r' : ChunkRefRecord => r'.chunkId = r.chunkId ∧
      r'.fileOffset = r.fileOffset ∧ r'.size = r.size) rows rows') :
    rows'.map content = rows.map content := by
  induction h with
  | nil => rfl
  | cons hhead _ ih =>
    obtain ⟨hid, hoffset, hsize⟩ := hhead
    rw [List.map_cons, List.map_cons, ih, content, content, hid, hoffset, hsize]

/-- A conflict copy leaves the tables alone, or a copy of the revision beside the file. -/
theorem run_materializeConflictCopy_eq {w : FileWorld P} (hinv : (historyOf w.db).Inv first)
    {source : FileRevisionRecord} (hsource : source ∈ w.db.fileRevisions)
    (deviceId : Option String) (deviceName reason : String) :
    (∃ e, (Db.materializeConflictCopyFromRevision source.revisionId deviceId deviceName reason).run w
        = (.error e, w)) ∨
      ∃ copy db' rows, (Db.materializeConflictCopyFromRevision source.revisionId deviceId deviceName
          reason).run w = (.ok copy, w.withDb db') ∧
        historyOf db' = (historyOf w.db).withCopy (copyRow source deviceId reason w.now w.db) rows
          (copyEvent source reason w.db) ∧
        (∀ r ∈ rows, r.revisionId = w.db.revisionSequence + 1) ∧
        rows.map content = ((historyOf w.db).refsOf source.revisionId).map content := by
  have hfind : w.db.fileRevisions.find? (·.revisionId = source.revisionId) = some source :=
    find?_of_mem hinv hsource
  rw [Db.materializeConflictCopyFromRevision, run_selectFiles_bind, hfind, Prog.ofOption_some,
    Prog.ret_bind, Db.getInodeById, run_selectFiles_bind]
  rcases hinode : w.db.inodes.find? (·.id = source.inodeId) with _ | inode
  · rw [hinode]
    exact .inl ⟨_, rfl⟩
  rw [hinode, Prog.ofOption_some, Prog.ret_bind]
  obtain ⟨baseName, hbaseName⟩ : ∃ baseName, baseName =
    Db.buildConflictCopyName inode.name deviceName source.createdAt := ⟨_, rfl⟩
  rw [← hbaseName]
  rcases run_createConflictInode_eq inode.parentId baseName inode.kind source.size 16 0 w with
    ⟨hstate, hnone⟩ | ⟨name, hrun⟩
  · left
    rcases hrun : (Db.createConflictInode inode.parentId baseName inode.kind source.size 16 0).run w
      with ⟨e | created, t⟩
    · rw [hrun] at hstate
      obtain rfl : t = w := hstate
      exact ⟨e, Prog.run_bind_of_error hrun⟩
    · rw [hrun] at hstate hnone
      obtain rfl : t = w := hstate
      obtain rfl : created = none := hnone created rfl
      rw [Prog.run_bind_of_ok hrun]
      exact ⟨_, rfl⟩
  · right
    rw [Prog.run_bind_of_ok hrun]
    obtain ⟨db₁, hdb₁⟩ : ∃ db₁, db₁ = Db.appendRevision (w.db.inodeSequence + 1) source.size
      source.immutableUntil deviceId (some source.revisionId) "conflict_copy" (some reason) w.now
        (Db.clearCurrent (w.db.inodeSequence + 1)
          (Db.appendInode inode.parentId name inode.kind source.size w.db)) := ⟨_, rfl⟩
    have hhistory₁ : historyOf db₁ = (historyOf w.db).withInode.withRevision
        (copyRow source deviceId reason w.now w.db) := by
      rw [hdb₁, ← historyOf_appendInode inode.parentId name inode.kind source.size w.db]
      rfl
    obtain ⟨rows, hfold, hids, hcopy⟩ := copied_refs (w.db.revisionSequence + 1)
      (Db.refsOf source.revisionId db₁) db₁
    obtain ⟨db₂, hdb₂⟩ : ∃ db₂, db₂ = (Db.refsOf source.revisionId db₁).foldl (fun db r =>
      Db.appendChunkRef (w.db.revisionSequence + 1) r.chunkId r.fileOffset r.size db) db₁ :=
      ⟨_, rfl⟩
    rw [← hdb₂] at hfold
    have hconflicts : db₂.conflictEvents = w.db.conflictEvents := by rw [hfold, hdb₁]; rfl
    have hsequence : db₂.conflictSequence = w.db.conflictSequence := by rw [hfold, hdb₁]; rfl
    have hhistory₂ : historyOf db₂ = (historyOf db₁).withRefs rows := by rw [hfold]; rfl
    refine ⟨⟨w.db.inodeSequence + 1, w.db.revisionSequence + 1, name, db₂.conflictSequence + 1⟩,
      Db.setConflictMaterialization (db₂.conflictSequence + 1) (w.db.inodeSequence + 1)
        (w.db.revisionSequence + 1) (Db.appendConflictEvent source.inodeId source.revisionId
          (w.db.revisionSequence + 1) reason db₂), rows, ?_, ?_, hids, ?_⟩
    · rw [hdb₂, hdb₁]
      rfl
    · have hevents : (Db.setConflictMaterialization (db₂.conflictSequence + 1)
          (w.db.inodeSequence + 1) (w.db.revisionSequence + 1) (Db.appendConflictEvent
            source.inodeId source.revisionId (w.db.revisionSequence + 1) reason db₂)).conflictEvents
          = w.db.conflictEvents ++ [copyEvent source reason w.db] := by
        have hold : updateWhere (·.conflictId = w.db.conflictSequence + 1) (fun e => { e with
            materializedInodeId := some (w.db.inodeSequence + 1)
            materializedRevisionId := some (w.db.revisionSequence + 1) }) w.db.conflictEvents =
              w.db.conflictEvents := by
          apply updateWhere_eq_self
          intro e he
          have hle := hinv.conflictIds e he
          change e.conflictId ≤ w.db.conflictSequence at hle
          simp only [decide_eq_false_iff_not]
          omega
        change updateWhere _ _ (db₂.conflictEvents ++ [_]) = _
        rw [hconflicts, hsequence, updateWhere, List.map_append, ← updateWhere, hold]
        simp [copyEvent]
      rw [History.withCopy, ← hhistory₁, ← hhistory₂, History.withConflict, historyOf, hevents,
        ← hconflicts]
      rfl
    · have hsame : Db.refsOf source.revisionId db₁ =
          (historyOf w.db).refsOf source.revisionId := by
        rw [hdb₁]
        rfl
      rw [← hsame]
      exact map_content_of_copies hcopy

/-! ## The parent of a new revision -/

/-- The inode has no new revision, whatever stands beside it. -/
structure Unedited (first inodeId : ℤ) (h h' : History) : Prop where
  inv : h'.Inv first
  grows : Grows first h h'
  own : ∀ r ∈ h'.revisions, r.inodeId = inodeId → r ∈ h.revisions

theorem Unedited.refl {h : History} (hinv : h.Inv first) : Unedited first inodeId h h :=
  ⟨hinv, .refl _ _, fun _ hr _ => hr⟩

/-- A parent is chosen, and the current revision is the expected one, the parent or above it, or
kept as a copy. -/
structure ParentChosen (first inodeId : ℤ) (expected : Option ℤ) (h h' : History)
    (parent : Option ℤ) : Prop where
  there : ∀ p ∈ parent, ∃ q ∈ h'.revisions, q.revisionId = p
  spared : ∀ c ∈ h.revisions, c.inodeId = inodeId → c.isCurrent = true →
    expected = some c.revisionId ∨
      (∃ p, parent = some p ∧ (c.revisionId = p ∨ h'.RevisionAncestor c.revisionId p)) ∨
      Kept first h' c.revisionId

/-- The current revision of an inode is the one with the flag. -/
theorem currentRevision_eq_some_iff {db : FileDb} (hinv : (historyOf db).Inv first) {x : ℤ}
    {c : FileRevisionRecord} : Db.currentRevision x db = some c ↔
      c ∈ db.fileRevisions ∧ c.inodeId = x ∧ c.isCurrent = true := by
  have hmem : ∀ r, r ∈ orderBy (fun r => -r.revisionId)
      (db.fileRevisions.filter fun r => r.inodeId = x && r.isCurrent) ↔
        r ∈ db.fileRevisions ∧ r.inodeId = x ∧ r.isCurrent = true := by
    intro r
    rw [mem_orderBy, List.mem_filter, Bool.and_eq_true, decide_eq_true_eq]
  constructor
  · intro h
    exact (hmem c).mp (List.mem_of_mem_head? h)
  · intro hc
    have hlist := (hmem c).mpr hc
    obtain ⟨r, hr⟩ : ∃ r, Db.currentRevision x db = some r := by
      rw [Db.currentRevision]
      exact Option.isSome_iff_exists.mp (by
        rw [List.isSome_head?]
        exact List.ne_nil_of_mem hlist)
    obtain ⟨hr', hplace, hcurrent⟩ := (hmem r).mp (List.mem_of_mem_head? hr)
    rw [hr, hinv.only r hr' c hc.1 (hplace.trans hc.2.1.symm) hcurrent hc.2.2]

/-- The choice of the parent leaves at most a copy of the current revision. -/
theorem run_resolveParent_eq {w : FileWorld P} (hinv : (historyOf w.db).Inv first)
    (hfirst : inodeId ≤ first) {expected : Option ℤ}
    (hexpected : ∀ e ∈ expected, ∃ r ∈ w.db.fileRevisions, r.revisionId = e)
    (deviceId : Option String) (deviceName : String) :
    ∃ out db', (resolveParent (Db.currentRevision inodeId w.db) deviceId deviceName expected).run w =
        (out, w.withDb db') ∧ Unedited first inodeId (historyOf w.db) (historyOf db') ∧
      ∀ parent, out = .ok parent →
        ParentChosen first inodeId expected (historyOf w.db) (historyOf db') parent.1 := by
  have hcurrent : ∀ c ∈ w.db.fileRevisions, c.inodeId = inodeId → c.isCurrent = true →
      Db.currentRevision inodeId w.db = some c :=
    fun c hc hplace hflag => (currentRevision_eq_some_iff hinv).mpr ⟨hc, hplace, hflag⟩
  cases expected with
  | none =>
    refine ⟨_, w.db, rfl, .refl hinv, fun parent h => ?_⟩
    cases h
    refine ⟨fun p hp => ?_, fun c hc hplace hflag => .inr (.inl ⟨c.revisionId, ?_, .inl rfl⟩)⟩
    · obtain ⟨c, hc, rfl⟩ := Option.map_eq_some_iff.mp hp
      exact ⟨c, ((currentRevision_eq_some_iff hinv).mp hc).1, rfl⟩
    · rw [hcurrent c hc hplace hflag]
      rfl
  | some expected =>
    obtain ⟨base, hbase, rfl⟩ := hexpected expected rfl
    have hthere : ∀ p ∈ some base.revisionId, ∃ q ∈ w.db.fileRevisions, q.revisionId = p :=
      fun p hp => ⟨base, hbase, Option.some.inj hp⟩
    cases hfound : Db.currentRevision inodeId w.db with
    | none =>
      refine ⟨_, w.db, rfl, .refl hinv, fun parent h => ?_⟩
      cases h
      refine ⟨hthere, fun c hc hplace hflag => ?_⟩
      rw [hcurrent c hc hplace hflag] at hfound
      cases hfound
    | some current =>
      obtain ⟨hmem, -, -⟩ := (currentRevision_eq_some_iff hinv).mp hfound
      have hsame : ∀ c ∈ (historyOf w.db).revisions, c.inodeId = inodeId → c.isCurrent = true →
          c = current := by
        intro c hc hplace hflag
        rw [hcurrent c hc hplace hflag] at hfound
        exact Option.some.inj hfound
      obtain ⟨relation, hlineage, hrelated⟩ := run_classifyRevisionLineage_eq (P := P)
        (ε := PackerError) hinv rfl hbase hmem
      rw [resolveParent, Prog.run_bind_of_ok hlineage]
      cases hreason : conflictReason relation with
      | none =>
        refine ⟨_, w.db, rfl, .refl hinv, fun parent h => ?_⟩
        cases h
        refine ⟨hthere, fun c hc hplace hflag => ?_⟩
        obtain rfl := hsame c hc hplace hflag
        cases relation with
        | same => exact .inl (congrArg some hrelated)
        | candidateDescendsFromCurrent => exact .inr (.inl ⟨_, rfl, .inr hrelated⟩)
        | currentDescendsFromCandidate => cases hreason
        | parallel => cases hreason
      | some reason =>
        rcases run_materializeConflictCopy_eq hinv hmem deviceId deviceName reason with
          ⟨e, hrun⟩ | ⟨copy, db', rows, hrun, hhistory, hids, hcontent⟩
        · have hmap := Prog.run_mapError_of_error PackerError.db hrun
          refine ⟨_, w.db, Prog.run_bind_of_error hmap, .refl hinv, fun parent h => ?_⟩
          cases h
        · have hmap := Prog.run_mapError_of_ok PackerError.db hrun
          obtain ⟨hinv', hgrows, hkept⟩ := withCopy_kept hinv
            (copyRow current deviceId reason w.now w.db) hmem rfl rfl rfl rfl hids hcontent
            (copyEvent current reason w.db) rfl ⟨rfl, rfl, rfl, rfl⟩
          rw [← hhistory] at hinv' hgrows hkept
          have hrevisions : (historyOf db').revisions =
              cleared (w.db.inodeSequence + 1) w.db.fileRevisions ++
                [copyRow current deviceId reason w.now w.db] := by
            rw [hhistory]
            rfl
          have hfresh : inodeId ≤ w.db.inodeSequence := hfirst.trans hinv.start
          refine ⟨_, db', Prog.run_bind_of_ok hmap, ⟨hinv', hgrows, ?_⟩, fun parent h => ?_⟩
          · intro r hr hplace
            rw [hrevisions] at hr
            rcases List.mem_append.mp hr with hold | hnew
            · obtain ⟨r₀, hr₀, hsame, hother, -⟩ := mem_cleared hold
              have hne : r₀.inodeId ≠ w.db.inodeSequence + 1 := by
                rw [← hsame.2.1, hplace]
                omega
              exact hother hne ▸ hr₀
            · rw [List.mem_singleton.mp hnew] at hplace
              have hnext : w.db.inodeSequence + 1 = inodeId := hplace
              omega
          · cases h
            refine ⟨fun p hp => ?_, fun c hc hplace hflag => ?_⟩
            · obtain ⟨q, hq, hsame⟩ := exists_cleared hbase (w.db.inodeSequence + 1)
              refine ⟨q, ?_, hsame.1.trans (Option.some.inj hp)⟩
              rw [hrevisions]
              exact List.mem_append_left _ hq
            · obtain rfl := hsame c hc hplace hflag
              exact .inr (.inr hkept)

/-! ## A write -/

/-- The preparation of the chunks does not touch the file tables. -/
theorem keeps_prepareChunks_db (db : FileDb) (inodeId : ℤ) (mode : StorageMode) (fileOffset : ℤ)
    (plaintexts : List Bytes) :
    (prepareChunks C inodeId mode fileOffset plaintexts).Keeps fun w => w.db = db :=
  keeps_prepareChunks (fun _ _ h => h)
    (fun _ => keeps_onVault_frame (fun _ _ h => h) _ _)
    (keeps_onVault_frame (fun _ _ h => h) _ _) inodeId mode fileOffset plaintexts

/-- Before the new revision the inode is unedited, and its parent is chosen. -/
theorem run_preparePack_eq {w : FileWorld P} (hinv : (historyOf w.db).Inv first)
    (hfirst : inodeId ≤ first) (config : PackerConfig) (source : Bytes) {expected : Option ℤ}
    (hexpected : ∀ e ∈ expected, ∃ r ∈ w.db.fileRevisions, r.revisionId = e) :
    ∃ out t, (preparePack C config inodeId source expected).run w = (out, t) ∧
      Unedited first inodeId (historyOf w.db) (historyOf t.db) ∧
      ∀ prepared deviceId parent copyName, out = .ok (prepared, deviceId, parent, copyName) →
        ParentChosen first inodeId expected (historyOf w.db) (historyOf t.db) parent := by
  rw [preparePack, Db.getStorageModeForInode, run_selectFiles_bind]
  have hkeep := keeps_prepareChunks_db (C := C) w.db inodeId (Db.storageModeOf inodeId w.db) 0
    (piecesOf config.chunkSize source.length source)
  have hdb := hkeep.run (s := w) rfl
  rcases hrun : (prepareChunks C inodeId (Db.storageModeOf inodeId w.db) 0
    (piecesOf config.chunkSize source.length source)).run w with ⟨e | prepared, t⟩
  · rw [hrun] at hdb
    have hdb : t.db = w.db := hdb
    refine ⟨_, t, Prog.run_bind_of_error hrun, ?_, fun _ _ _ _ h => by cases h⟩
    rw [hdb]
    exact .refl hinv
  rw [hrun] at hdb
  have hdb : t.db = w.db := hdb
  rw [← hdb] at hinv hexpected
  have hdevice : (onVault PackerError.vault Db.getLocalDeviceIdentity).run t =
      (.ok t.vault.db.localDeviceIdentity, t) := run_onVault _ _ t
  rw [Prog.run_bind_of_ok hrun, Prog.run_bind_of_ok hdevice, Db.getCurrentFileRevision,
    run_selectFiles_bind]
  obtain ⟨out, db', hresolve, hunedited, hchosen⟩ := run_resolveParent_eq hinv hfirst hexpected
    (t.vault.db.localDeviceIdentity.map (·.deviceId))
    ((t.vault.db.localDeviceIdentity.map (·.deviceName)).getD "Unknown Device")
  rw [hdb] at hunedited hchosen
  cases out with
  | error e =>
    exact ⟨_, _, Prog.run_bind_of_error hresolve, hunedited, fun _ _ _ _ h => by cases h⟩
  | ok parent =>
    refine ⟨_, _, Prog.run_bind_of_ok hresolve, hunedited, fun _ _ _ _ h => ?_⟩
    cases h
    exact hchosen _ rfl

/-- The chunks of a new revision only add references to it. -/
theorem keeps_writeChunks_history (first : ℤ) {h₀ : History}
    (revisions : List FileRevisionRecord) {revisionId : ℤ}
    (hnew : h₀.revisionSequence < revisionId) (packs : List PreparedPack) :
    (writeChunks revisionId packs : FileProg P PackerError Unit).Keeps fun w =>
      w.db.fileRevisions = revisions ∧ revisionId ≤ w.db.revisionSequence ∧
        (historyOf w.db).Inv first ∧ Grows first h₀ (historyOf w.db) := by
  have hshards : ∀ packId (shards : List PreparedShard),
      (registerShards packId shards : FileProg P PackerError Unit).Keeps fun w =>
        w.db.fileRevisions = revisions ∧ revisionId ≤ w.db.revisionSequence ∧
          (historyOf w.db).Inv first ∧ Grows first h₀ (historyOf w.db) := by
    intro packId shards
    induction shards with
    | nil => trivial
    | cons shard rest ih => exact (Prog.Keeps.exec fun _ h => h).bind fun _ => ih
  induction packs with
  | nil => trivial
  | cons pack rest ih =>
    rw [writeChunks]
    refine Prog.Keeps.bind ?_ fun _ => ih
    rw [writeChunk]
    apply Prog.Keeps.bind
    · apply Prog.Keeps.execReturning
      rintro w ⟨hrevisions, hle, hinv, hgrows⟩
      let row : ChunkRefRecord :=
        { id := w.db.chunkRefSequence + 1
          revisionId
          chunkId := pack.chunkId.bytes
          fileOffset := pack.fileOffset
          size := pack.plainSize }
      have hrows : ∀ r ∈ [row], r.revisionId = revisionId := by
        intro r hr
        rw [List.mem_singleton.mp hr]
      exact ⟨hrevisions, hle, hinv.withRefs fun r hr => (hrows r hr).le.trans hle,
        hgrows.withRefs fun r hr => by rw [hrows r hr]; exact hnew⟩
    · intro _
      apply Prog.Keeps.bind (Prog.Keeps.exec fun _ h => h)
      intro _
      split
      · trivial
      · apply Prog.Keeps.bind (Prog.Keeps.exec fun _ h => h)
        intro _
        apply Prog.Keeps.bind
        · cases pack.dekId with
          | some dekId => exact Prog.Keeps.exec fun _ h => h
          | none => trivial
        · intro _
          apply Prog.Keeps.bind (hshards _ _)
          intro _
          split
          · exact Prog.Keeps.exec fun _ h => h
          · trivial

/-- The replaced revision is the expected one, above the new one, or kept as a copy. -/
def Spared (first : ℤ) (expected : Option ℤ) (replaced new : ℤ) (h : History) : Prop :=
  expected = some replaced ∨ h.RevisionAncestor replaced new ∨ Kept first h replaced

/-- A write edits the inode at most once, and then it spares what it replaces. -/
def Written (first inodeId : ℤ) (expected : Option ℤ) (h h' : History) : Prop :=
  (∀ r ∈ h'.revisions, r.inodeId = inodeId → r ∈ h.revisions) ∨
    ∃ new ∈ h'.revisions, new.inodeId = inodeId ∧ new.isCurrent = true ∧
      h.revisionSequence < new.revisionId ∧
      ∀ c ∈ h.revisions, c.inodeId = inodeId → c.isCurrent = true →
        Spared first expected c.revisionId new.revisionId h'

/-- What a write does to the history of its inode. -/
theorem run_packFile_history {w : FileWorld P} (hinv : (historyOf w.db).Inv first)
    (hfirst : inodeId ≤ first) (hinode : inodeId ∈ (historyOf w.db).inodeIds)
    (config : PackerConfig) (source : Bytes) {expected : Option ℤ}
    (hexpected : ∀ e ∈ expected, ∃ r ∈ w.db.fileRevisions, r.revisionId = e) {t : FileWorld P}
    (ht : ((packFileWithExpectedParent C config inodeId source expected).run w).2 = t) :
    (historyOf t.db).Inv first ∧ Grows first (historyOf w.db) (historyOf t.db) ∧
      Written first inodeId expected (historyOf w.db) (historyOf t.db) := by
  obtain ⟨out, u, hprepare, hunedited, hchosen⟩ :=
    run_preparePack_eq (C := C) hinv hfirst config source hexpected
  rw [packFileWithExpectedParent] at ht
  cases out with
  | error e =>
    rw [Prog.run_bind_of_error hprepare] at ht
    obtain rfl : u = t := ht
    exact ⟨hunedited.inv, hunedited.grows, .inl hunedited.own⟩
  | ok out =>
    obtain ⟨prepared, deviceId, parent, copyName⟩ := out
    have hparent := hchosen prepared deviceId parent copyName rfl
    rw [Prog.run_bind_of_ok hprepare] at ht
    dsimp only at ht
    rcases hsize : toI64 (logicalSizeOf prepared) "logical size" with e | size
    · rw [hsize] at ht
      obtain rfl : u = t := ht
      exact ⟨hunedited.inv, hunedited.grows, .inl hunedited.own⟩
    rw [hsize, Prog.ofExcept_ok, Prog.ret_bind] at ht
    let row : FileRevisionRecord :=
      { revisionId := u.db.revisionSequence + 1
        inodeId
        createdAt := u.now
        size
        isCurrent := true
        immutableUntil := none
        deviceId
        parentRevisionId := parent
        origin := "local_write"
        conflictReason := none }
    have hnext : (historyOf u.db).Next first row :=
      ⟨rfl, hunedited.grows.inodeIds _ hinode, .inl hfirst, rfl, hparent.there⟩
    let db₁ := Db.appendRevision inodeId size none deviceId parent "local_write" none u.now
      (Db.clearCurrent inodeId u.db)
    have hcreate : (Db.createFileRevision (P := P) (ε := PackerError) inodeId size none deviceId
        parent "local_write" none).run u = (.ok (u.db.revisionSequence + 1), u.withDb db₁) := rfl
    have hhistory : historyOf db₁ = (historyOf u.db).withRevision row := rfl
    rw [Prog.run_bind_of_ok hcreate] at ht
    have hlt : (historyOf u.db).revisionSequence < u.db.revisionSequence + 1 := Int.lt_succ _
    have hkeep := keeps_writeChunks_history (P := P) first db₁.fileRevisions hlt prepared
    have hend := hkeep.run (s := u.withDb db₁) ⟨rfl, le_rfl, by
      rw [FileWorld.db_withDb, hhistory]
      exact hunedited.inv.withRevision hnext, by
      rw [FileWorld.db_withDb, hhistory]
      exact (Grows.refl first _).withRevision hnext⟩
    obtain ⟨hrevisions, -, hinv', hgrows⟩ : t.db.fileRevisions = db₁.fileRevisions ∧
        u.db.revisionSequence + 1 ≤ t.db.revisionSequence ∧ (historyOf t.db).Inv first ∧
          Grows first (historyOf u.db) (historyOf t.db) := by
      rcases hwrite : (writeChunks (u.db.revisionSequence + 1) prepared :
        FileProg P PackerError Unit).run (u.withDb db₁) with ⟨e | done, v⟩
      · rw [hwrite] at hend
        rw [Prog.run_bind_of_error hwrite] at ht
        obtain rfl : v = t := ht
        exact hend
      · rw [hwrite] at hend
        rw [Prog.run_bind_of_ok hwrite] at ht
        obtain rfl : v = t := ht
        exact hend
    have hrow : row ∈ (historyOf t.db).revisions := by
      change row ∈ t.db.fileRevisions
      rw [hrevisions]
      exact List.mem_append_right _ (List.mem_singleton_self row)
    refine ⟨hinv', hunedited.grows.trans hgrows, .inr ⟨row, hrow, rfl, rfl, ?_, ?_⟩⟩
    · exact Int.lt_add_one_of_le hunedited.grows.sequence
    · intro c hc hplace hflag
      rcases hparent.spared c hc hplace hflag with heq | ⟨p, rfl, habove⟩ | hkept
      · exact .inl heq
      · have hedge : parentOf (historyOf t.db).revisions row.revisionId = some p := by
          rw [parentOf, find?_of_mem hinv' hrow]
          rfl
        refine .inr (.inl (ancestor_iff.mpr ⟨p, hedge, habove.imp_right fun hanc => ?_⟩))
        obtain ⟨q, hq, rfl⟩ := hparent.there p rfl
        exact (hgrows.ancestor_iff hunedited.inv (hunedited.inv.revisionIds q hq)).mpr hanc
      · refine .inr (.inr (hkept.mono hunedited.inv hgrows ?_))
        exact (hinv.revisionIds c hc).trans hunedited.grows.sequence

/-- A promotion keeps the history in order, and edits nothing. -/
theorem run_promote_history {w : FileWorld P} (hinv : (historyOf w.db).Inv first)
    (revisionId : ℤ) {t : FileWorld P}
    (ht : ((Db.promoteRevisionToCurrent revisionId).run w).2 = t) :
    (historyOf t.db).Inv first ∧ Grows first (historyOf w.db) (historyOf t.db) := by
  rw [Db.promoteRevisionToCurrent, Prog.run_execReturning_bind] at ht
  cases hfind : w.db.fileRevisions.find? (·.revisionId = revisionId) with
  | none =>
    rw [hfind] at ht
    obtain rfl : w = t := ht
    exact ⟨hinv, .refl _ _⟩
  | some r =>
    rw [hfind] at ht
    obtain rfl : w.withDb (Db.setCurrent r.inodeId revisionId w.db) = t := ht
    obtain rfl : r.revisionId = revisionId := by simpa using List.find?_some hfind
    have hr : r ∈ (historyOf w.db).revisions := List.mem_of_find?_eq_some hfind
    have hhistory : historyOf (Db.setCurrent r.inodeId r.revisionId w.db) =
        (historyOf w.db).withCurrent r := rfl
    rw [FileWorld.db_withDb, hhistory]
    exact ⟨hinv.withCurrent hr, .withCurrent hinv hr⟩

/-! ## Runs -/

/-- What happens to a file: a write, a promotion of any revision, or anything that does not touch
the history of files. -/
inductive EditOp (P : Primitives) where
  | pack (config : PackerConfig) (source : Bytes) (expected : Option ℤ)
  | promote (revisionId : ℤ)
  | other (change : FileWorld P → FileWorld P)

/-- A revision that was current when a write put a new one in its place. -/
structure Replacement where
  expected : Option ℤ
  replaced : ℤ
  new : ℤ
  deriving DecidableEq, Repr

/-- A world, and the replacements in it so far. -/
structure EditWorld (P : Primitives) where
  files : FileWorld P
  replacements : List Replacement := []

/-- The replacement between two states of the tables. -/
def replacementOf (inodeId : ℤ) (expected : Option ℤ) (db db' : FileDb) : Option Replacement := do
  let replaced ← Db.currentRevision inodeId db
  let new ← Db.currentRevision inodeId db'
  if replaced.revisionId = new.revisionId then none
  else some ⟨expected, replaced.revisionId, new.revisionId⟩

namespace EditOp

variable (C) (inodeId) in
/-- One operation on the file, whether it succeeds or fails. -/
def step : EditOp P → EditWorld P → EditWorld P
  | .pack config source expected, s =>
    let files := ((packFileWithExpectedParent C config inodeId source expected).run s.files).2
    { files
      replacements := s.replacements ++
        (replacementOf inodeId expected s.files.db files.db).toList }
  | .promote revisionId, s =>
    { s with files := ((Db.promoteRevisionToCurrent revisionId).run s.files).2 }
  | .other change, s => { s with files := change s.files }

variable (inodeId) in
/-- The expected parent is a revision of the inode. -/
def Legal : EditOp P → EditWorld P → Prop
  | .pack _ _ expected, s =>
    ∀ e ∈ expected, ∃ r ∈ s.files.db.fileRevisions, r.inodeId = inodeId ∧ r.revisionId = e
  | .promote _, _ => True
  | .other change, s => historyOf (change s.files).db = historyOf s.files.db

end EditOp

/-- The history is in order, and spares everything that was replaced. -/
structure EditWorld.Inv (first inodeId : ℤ) (s : EditWorld P) : Prop where
  history : (historyOf s.files.db).Inv first
  inode : inodeId ∈ (historyOf s.files.db).inodeIds
  known : ∀ x ∈ s.replacements, x.replaced ≤ s.files.db.revisionSequence ∧
    x.new ≤ s.files.db.revisionSequence
  spared : ∀ x ∈ s.replacements,
    Spared first x.expected x.replaced x.new (historyOf s.files.db)

/-- What is spared stays spared. -/
theorem Spared.mono {expected : Option ℤ} {replaced new : ℤ} {h h' : History}
    (hspared : Spared first expected replaced new h) (hinv : h.Inv first) (hg : Grows first h h')
    (hreplaced : replaced ≤ h.revisionSequence) (hnew : new ≤ h.revisionSequence) :
    Spared first expected replaced new h' := by
  rcases hspared with hexpected | habove | hkept
  · exact .inl hexpected
  · exact .inr (.inl ((hg.ancestor_iff hinv hnew).mpr habove))
  · exact .inr (.inr (hkept.mono hinv hg hreplaced))

/-- The replacements so far are still spared when the history has grown. -/
theorem EditWorld.Inv.grown {s : EditWorld P} (h : s.Inv first inodeId) {files : FileWorld P}
    (hinv : (historyOf files.db).Inv first)
    (hg : Grows first (historyOf s.files.db) (historyOf files.db)) :
    ({ s with files } : EditWorld P).Inv first inodeId where
  history := hinv
  inode := hg.inodeIds inodeId h.inode
  known x hx := ⟨(h.known x hx).1.trans hg.sequence, (h.known x hx).2.trans hg.sequence⟩
  spared x hx := (h.spared x hx).mono h.history hg (h.known x hx).1 (h.known x hx).2

/-- A write spares the revision that it replaces. -/
theorem Written.replacement {db db' : FileDb} {expected : Option ℤ}
    (hwritten : Written first inodeId expected (historyOf db) (historyOf db'))
    (hinv : (historyOf db).Inv first) (hinv' : (historyOf db').Inv first)
    (hg : Grows first (historyOf db) (historyOf db')) {x : Replacement}
    (hx : replacementOf inodeId expected db db' = some x) :
    (x.replaced ≤ db'.revisionSequence ∧ x.new ≤ db'.revisionSequence) ∧
      Spared first x.expected x.replaced x.new (historyOf db') := by
  obtain ⟨c, hc, hx⟩ := Option.bind_eq_some_iff.mp hx
  obtain ⟨new, hnew, hx⟩ := Option.bind_eq_some_iff.mp hx
  obtain ⟨hcMem, hcPlace, hcCurrent⟩ := (currentRevision_eq_some_iff hinv).mp hc
  obtain ⟨hnewMem, hnewPlace, hnewCurrent⟩ := (currentRevision_eq_some_iff hinv').mp hnew
  split at hx
  · cases hx
  · rename_i hne
    obtain rfl := Option.some.inj hx
    rcases hwritten with hown | ⟨written, hwrittenMem, hplace, hcurrent, -, hspared⟩
    · -- the current revision was there before, and it was the current one
      have hsame := hinv.only c hcMem new (hown new hnewMem hnewPlace)
        (hcPlace.trans hnewPlace.symm) hcCurrent hnewCurrent
      exact absurd (congrArg _ hsame) hne
    · have hsame := hinv'.only written hwrittenMem new hnewMem (hplace.trans hnewPlace.symm)
        hcurrent hnewCurrent
      rw [hsame] at hspared
      exact ⟨⟨(hinv.revisionIds c hcMem).trans hg.sequence, hinv'.revisionIds new hnewMem⟩,
        hspared c hcMem hcPlace hcCurrent⟩

/-- Every operation keeps the history in order and spares what it replaces. -/
theorem EditOp.step_inv (hfirst : inodeId ≤ first) (op : EditOp P) (s : EditWorld P)
    (h : s.Inv first inodeId) (hlegal : op.Legal inodeId s) :
    (op.step C inodeId s).Inv first inodeId := by
  cases op with
  | pack config source expected =>
    obtain ⟨hinv, hg, hwritten⟩ := run_packFile_history (C := C) h.history hfirst h.inode config
      source (fun e he => (hlegal e he).imp fun r hr => ⟨hr.1, hr.2.2⟩) rfl
    have hgrown := h.grown hinv hg
    refine ⟨hinv, hgrown.inode, fun x hx => ?_, fun x hx => ?_⟩
    · rcases List.mem_append.mp hx with hold | hnew
      · exact hgrown.known x hold
      · exact (hwritten.replacement h.history hinv hg (Option.mem_toList.mp hnew)).1
    · rcases List.mem_append.mp hx with hold | hnew
      · exact hgrown.spared x hold
      · exact (hwritten.replacement h.history hinv hg (Option.mem_toList.mp hnew)).2
  | promote revisionId =>
    obtain ⟨hinv, hg⟩ := run_promote_history h.history revisionId rfl
    exact h.grown hinv hg
  | other change =>
    have hsame : historyOf (change s.files).db = historyOf s.files.db := hlegal
    apply h.grown
    · rw [hsame]
      exact h.history
    · rw [hsame]
      exact .refl _ _

/-- No edit of the inode is lost: parents form no cycle, one revision is current, two revisions are
told apart by their ancestors, and what a write has replaced without building on it is kept. -/
structure NoEditLost (first inodeId : ℤ) (s : EditWorld P) : Prop where
  acyclic : ∀ revisionId, ¬ (historyOf s.files.db).RevisionAncestor revisionId revisionId
  current : (∃ r ∈ s.files.db.fileRevisions, r.inodeId = inodeId) →
    ∃! c, c ∈ s.files.db.fileRevisions ∧ c.inodeId = inodeId ∧ c.isCurrent = true
  lineage : ∀ candidate ∈ s.files.db.fileRevisions, ∀ current ∈ s.files.db.fileRevisions,
    ∃ relation, (Db.classifyRevisionLineage candidate.revisionId current.revisionId :
        FileProg P DbError _).run s.files = (.ok relation, s.files) ∧
      ∀ relation', Related (historyOf s.files.db) candidate.revisionId current.revisionId
        relation' ↔ relation' = relation
  kept : ∀ x ∈ s.replacements, x.expected ≠ some x.replaced →
    ¬ (historyOf s.files.db).RevisionAncestor x.replaced x.new →
    Kept first (historyOf s.files.db) x.replaced

theorem EditWorld.Inv.noEditLost {s : EditWorld P} (h : s.Inv first inodeId) :
    NoEditLost first inodeId s where
  acyclic := h.history.acyclic
  current := by
    rintro ⟨r, hr, rfl⟩
    obtain ⟨c, hc, hplace, hcurrent⟩ := h.history.current r hr
    refine ⟨c, ⟨hc, hplace, hcurrent⟩, ?_⟩
    rintro c' ⟨hc', hplace', hcurrent'⟩
    exact h.history.only c' hc' c hc (hplace'.trans hplace.symm) hcurrent' hcurrent
  lineage := by
    intro candidate hcandidate current hcurrent
    obtain ⟨relation, hrun, hrelated⟩ := run_classifyRevisionLineage_eq (P := P) (ε := DbError)
      h.history rfl hcandidate hcurrent
    refine ⟨relation, hrun, fun relation' => ⟨fun h' => related_unique h.history h' hrelated, ?_⟩⟩
    rintro rfl
    exact hrelated
  kept := by
    intro x hx hexpected habove
    exact ((h.spared x hx).resolve_left hexpected).resolve_left habove

/-- In every run of writes and promotions no edit is lost. -/
theorem no_edit_lost {w : FileWorld P} (hinv : (historyOf w.db).Inv w.db.inodeSequence)
    (hinode : inodeId ∈ (historyOf w.db).inodeIds) (ops : List (EditOp P))
    (hlegal : guarded (EditOp.step C inodeId) (EditOp.Legal inodeId) ops { files := w }) :
    ∀ s ∈ states (EditOp.step C inodeId) ops { files := w },
      NoEditLost w.db.inodeSequence inodeId s := by
  have hstart : ({ files := w } : EditWorld P).Inv w.db.inodeSequence inodeId :=
    ⟨hinv, hinode, by simp, by simp⟩
  have hfree : guarded (EditOp.step C inodeId) (fun _ _ => True) ops { files := w } :=
    guarded_of_forall _ (fun _ _ => trivial) _ _
  have hfirst : inodeId ≤ w.db.inodeSequence := hinv.inodeIds inodeId hinode
  intro s hs
  exact (inv_of_guarded _ _ _ _ (fun o s h hl _ => o.step_inv hfirst s h hl) hstart hlegal hfree
    s hs).noEditLost

/-- One file without revisions. -/
def oneFile : FileWorld symbolic :=
  { FileWorld.fresh openVault with
    db :=
      { inodes := [{ id := 1, parentId := none, name := "notes.txt", kind := "FILE", size := 0 }]
        inodeSequence := 1 } }

/-- Two writes on the first revision; the second one conflicts with the first. -/
def threeEdits : List (EditOp symbolic) :=
  [.pack fourByteChunks [1] none, .pack fourByteChunks [2] (some 1),
    .pack fourByteChunks [3] (some 1)]

/-- The world after the three writes. -/
def afterThreeEdits : EditWorld symbolic :=
  threeEdits.foldl (fun s op => EditOp.step symbolicChunks 1 op s) { files := oneFile }

/-- The second revision is replaced by the fourth one; the third one is its copy. -/
theorem no_edit_lost_threeEdits :
    afterThreeEdits.replacements = [⟨some 1, 1, 2⟩, ⟨some 1, 2, 4⟩] ∧
      NoEditLost 1 1 afterThreeEdits := by
  refine ⟨by decide, ?_⟩
  have hinv : (historyOf oneFile.db).Inv 1 := by
    apply Inv.fresh
    · decide
    · decide
    · rfl
    · rfl
    · rfl
  have hlegal : guarded (EditOp.step symbolicChunks 1) (EditOp.Legal 1) threeEdits
      { files := oneFile } := by
    refine ⟨?_, ?_, ?_, trivial⟩
    · intro e he
      cases he
    · rintro e ⟨⟩
      decide
    · rintro e ⟨⟩
      decide
  exact no_edit_lost hinv (by decide) threeEdits hlegal _ (mem_states_last _ _ _)

end OmniDrive
