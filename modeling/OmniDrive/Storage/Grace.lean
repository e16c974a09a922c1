import OmniDrive.Storage.Trash

/-!
# The grace period of the trash

A file leaves the database only after its grace period, and a restored file is complete, as long
as a restore takes nothing out of the trash that the sweeper or a purge is about to delete, and
no hard delete stops halfway.
-/

namespace OmniDrive

open StatementProgram Tables

namespace Trash

/-! ## The properties -/

/-- The inode, or a revision of it, is gone afterwards. -/
def Removes (before after : FileDb) (inodeId : ℤ) : Prop :=
  (∃ r ∈ before.inodes, r.id = inodeId ∧ ∀ r' ∈ after.inodes, r'.id ≠ inodeId) ∨
    ∃ r ∈ before.fileRevisions, r.inodeId = inodeId ∧
      ∀ r' ∈ after.fileRevisions, r'.revisionId ≠ r.revisionId

/-- The next statement of the sweeper removes only what has been in the trash for the grace
period without interruption. -/
def SweepsExpired (s : TrashRun) : Prop :=
  ∀ i, Removes s.world.db (resumeSweeper s).world.db i →
    ∃ t, s.since i = some t ∧ t + softDeleteGraceMs ≤ s.world.now

/-- The inode still has the revisions and the chunk references. -/
def Holds (c : FileContents) (inodeId : ℤ) (db : FileDb) : Prop :=
  (∀ id ∈ c.revisions, ∃ r ∈ db.fileRevisions, r.revisionId = id ∧ r.inodeId = inodeId) ∧
    ∀ ref ∈ c.refs, ref ∈ db.chunkRefs

/-- A restore that returned left an inode with all that it held when it was deleted, and it stays
so until a delete or purge is requested. -/
def RestoredComplete (s : TrashRun) : Prop :=
  ∀ i c, s.owed i = some c → (∃ r ∈ s.world.db.inodes, r.id = i) ∧ Holds c i s.world.db

/-- No call is in flight and the sweeper waits. -/
def Quiet (s : TrashRun) : Prop :=
  s.sweep = none ∧ ∀ t ∈ s.calls, ∀ upd next, t.rest ≠ .stmt upd next

/-- At rest, every chunk reference that was registered for a remaining revision is there. -/
def NoneEmptied (s : TrashRun) : Prop :=
  Quiet s → ∀ c ∈ s.registered, (∃ r ∈ s.world.db.fileRevisions, r.revisionId = c.revisionId) →
    c ∈ s.world.db.chunkRefs

/-! ## Deletions under way -/

/-- The next statement of a hard delete. -/
inductive DeletePhase where
  | refs
  | revisions
  | inode
  deriving DecidableEq, Repr

/-- What is left of a hard delete. -/
def hardDeleteFrom {ε : Type} (told : DbError → ε) (inodeId : ℤ) : DeletePhase → TrashProg ε Unit
  | .refs => hardDelete told inodeId
  | .revisions => do
    deleteRevisionsStmt inodeId
    deleteInodeRecord told inodeId
  | .inode => deleteInodeRecord told inodeId

/-- What is left of a purge that has passed its check. -/
def purgeFrom (inodeId : ℤ) (phase : DeletePhase) : TrashProg ApiError TrashResponse := do
  hardDeleteFrom .database inodeId phase
  pure (.purged inodeId)

/-- The sweeper or a purge is at this statement of the hard delete of an inode. -/
def Deleting (inodeId : ℤ) (phase : DeletePhase) (s : TrashRun) : Prop :=
  (∃ sw, s.sweep = some sw ∧ sw.inodeId = inodeId ∧ sw.rest = hardDeleteFrom id inodeId phase) ∨
    ∃ t ∈ s.calls, t.call = .purge inodeId ∧ t.rest = purgeFrom inodeId phase

/-- The sweeper has the inode on its list. -/
def Listed (inodeId : ℤ) (s : TrashRun) : Prop :=
  ∃ sw, s.sweep = some sw ∧ (sw.inodeId = inodeId ∨ inodeId ∈ sw.queue)

/-- The sweeper or a purge is about to delete the inode. -/
def Targeted (inodeId : ℤ) (s : TrashRun) : Prop :=
  Listed inodeId s ∨ ∃ phase, Deleting inodeId phase s

/-- The condition on the steps: the update of a restore comes while the inode is there and no
hard delete of it is under way, and no statement of a hard delete fails after the first, be it
refused or because the inode has children. -/
def TrashOp.Safe (op : TrashOp) (s : TrashRun) : Prop :=
  match op with
  | .resume n => ∀ t, s.calls[n]? = some t →
    (∀ i name, t.call = .restore i → t.rest = respondRestored i (finishRestore i name) →
      (∃ r ∈ s.world.db.inodes, r.id = i) ∧ ¬ Targeted i s) ∧
    ∀ i, t.call = .purge i → t.rest = purgeFrom i .inode → hasChildren i s.world.db = false
  | .refuse n => ∀ t i phase, s.calls[n]? = some t → t.call = .purge i →
    t.rest = purgeFrom i phase → phase = .refs
  | .resumeSweep => ∀ sw, s.sweep = some sw → sw.rest = hardDeleteFrom id sw.inodeId .inode →
    hasChildren sw.inodeId s.world.db = false
  | .refuseSweep => ∀ sw phase, s.sweep = some sw →
    sw.rest = hardDeleteFrom id sw.inodeId phase → phase = .refs
  | _ => True

/-! ## The tables -/

/-- The tables and what the observer has noted, against the inodes that deletions target, have
begun with, are between their first two statements of, or are listed by the sweeper. -/
structure TrashTables (targeted begun emptying swept : ℤ → Prop) (s : TrashRun) : Prop where
  ids : (s.world.db.inodes.map (·.id)).Nodup
  revisionIds : (s.world.db.fileRevisions.map (·.revisionId)).Nodup
  revisionInode : ∀ r ∈ s.world.db.fileRevisions, ∃ n ∈ s.world.db.inodes, n.id = r.inodeId
  sequence : ∀ r ∈ s.world.db.fileRevisions, r.revisionId ≤ s.world.db.revisionSequence
  registered : ∀ c ∈ s.registered, c.revisionId ≤ s.world.db.revisionSequence
  since : ∀ r ∈ s.world.db.inodes, ∀ t, r.deletedAt = some t → s.since r.id = some t
  kept : ∀ r ∈ s.world.db.inodes, ¬ begun r.id → Holds (s.kept r.id) r.id s.world.db
  keptRefs : ∀ i, ∀ ref ∈ (s.kept i).refs, ref.revisionId ∈ (s.kept i).revisions
  owed : ∀ i c, s.owed i = some c →
    (∃ r ∈ s.world.db.inodes, r.id = i ∧ r.deletedAt = none) ∧ Holds c i s.world.db ∧
      ∀ ref ∈ c.refs, ref.revisionId ∈ c.revisions
  targeted : ∀ r ∈ s.world.db.inodes, targeted r.id → r.deletedAt ≠ none
  swept : ∀ r ∈ s.world.db.inodes, swept r.id →
    ∃ t, r.deletedAt = some t ∧ t + softDeleteGraceMs < s.world.now
  registeredRefs : ∀ c ∈ s.registered, ∀ r ∈ s.world.db.fileRevisions,
    r.revisionId = c.revisionId → c ∈ s.world.db.chunkRefs ∨ emptying r.inodeId

section Tables

variable {targeted begun emptying swept : ℤ → Prop} {targeted' begun' emptying' swept' : ℤ → Prop}
variable {s : TrashRun} {after : TrashWorld} {db : FileDb} {i j : ℤ}

/-- Fewer targets and more deletions under way ask for less. -/
theorem TrashTables.mono (h : TrashTables targeted begun emptying swept s)
    (htargeted : ∀ i, targeted' i → targeted i) (hbegun : ∀ i, begun i → begun' i)
    (hemptying : ∀ i, emptying i → emptying' i) (hswept : ∀ i, swept' i → swept i) :
    TrashTables targeted' begun' emptying' swept' s where
  ids := h.ids
  revisionIds := h.revisionIds
  revisionInode := h.revisionInode
  sequence := h.sequence
  registered := h.registered
  since := h.since
  kept r hr hnot := h.kept r hr fun hbeg => hnot (hbegun _ hbeg)
  keptRefs := h.keptRefs
  owed := h.owed
  targeted r hr ht := h.targeted r hr (htargeted _ ht)
  swept r hr hs := h.swept r hr (hswept _ hs)
  registeredRefs c hc r hr hid := (h.registeredRefs c hc r hr hid).imp_right (hemptying _)

/-- The calls and the sweeper are no part of the tables. -/
theorem TrashTables.withThreads (h : TrashTables targeted begun emptying swept s)
    (calls : List TrashThread) (sweep : Option Sweep) :
    TrashTables targeted begun emptying swept { s with calls, sweep } :=
  ⟨h.ids, h.revisionIds, h.revisionInode, h.sequence, h.registered, h.since, h.kept, h.keptRefs,
    h.owed, h.targeted, h.swept, h.registeredRefs⟩

/-- With distinct identifiers, a row is the one found. -/
theorem deletedAt_of_mem (hids : (db.inodes.map (·.id)).Nodup) {r : InodeRecord}
    (hr : r ∈ db.inodes) : deletedAt r.id db = r.deletedAt := by
  rw [deletedAt, inodeOf, find?_of_nodup hids hr, Option.bind_some]

/-- With distinct identifiers, a revision belongs to one inode. -/
theorem isRevisionOf_eq (hids : (db.fileRevisions.map (·.revisionId)).Nodup)
    {r : FileRevisionRecord} (hr : r ∈ db.fileRevisions) (inodeId : ℤ) :
    isRevisionOf inodeId r.revisionId db = decide (r.inodeId = inodeId) := by
  rw [isRevisionOf, Bool.eq_iff_iff, List.any_eq_true, decide_eq_true_iff]
  constructor
  · intro ⟨r', hr', hand⟩
    rw [Bool.and_eq_true, decide_eq_true_iff, decide_eq_true_iff] at hand
    rw [← List.inj_on_of_nodup_map hids hr' hr hand.2]
    exact hand.1
  · intro hinode
    exact ⟨r, hr, by simp [hinode]⟩

/-- An observer notes nothing about a row that stays as it was. -/
theorem observe_since_of_mem (hids : (s.world.db.inodes.map (·.id)).Nodup)
    (hids' : (after.db.inodes.map (·.id)).Nodup) {r : InodeRecord}
    (hr : r ∈ s.world.db.inodes) (hr' : r ∈ after.db.inodes) {t : ℤ}
    (hdeleted : r.deletedAt = some t) : (s.observe after).since r.id = s.since r.id := by
  have hbefore := deletedAt_of_mem hids hr
  have hafter := deletedAt_of_mem hids' hr'
  rw [hdeleted] at hbefore hafter
  simp [TrashRun.observe, hbefore, hafter]

theorem observe_kept_of_mem (hids : (s.world.db.inodes.map (·.id)).Nodup)
    (hids' : (after.db.inodes.map (·.id)).Nodup) {r : InodeRecord}
    (hr : r ∈ s.world.db.inodes) (hr' : r ∈ after.db.inodes) :
    (s.observe after).kept r.id = s.kept r.id := by
  have hbefore := deletedAt_of_mem hids hr
  have hafter := deletedAt_of_mem hids' hr'
  cases hdeleted : r.deletedAt with
  | none =>
    rw [hdeleted] at hbefore hafter
    simp [TrashRun.observe, hbefore, hafter]
  | some t =>
    rw [hdeleted] at hbefore hafter
    simp [TrashRun.observe, hbefore, hafter]

/-- What an inode holds refers to its own revisions. -/
theorem contentsOf_refs : ∀ ref ∈ (contentsOf i db).refs,
    ref.revisionId ∈ (contentsOf i db).revisions := by
  intro ref href
  rw [contentsOf, List.mem_filter, isRevisionOf, List.any_eq_true] at href
  obtain ⟨-, r, hr, hand⟩ := href
  rw [Bool.and_eq_true, decide_eq_true_iff, decide_eq_true_iff] at hand
  rw [contentsOf, List.mem_map]
  exact ⟨r, List.mem_filter.mpr ⟨hr, by simp [hand.1]⟩, hand.2⟩

/-- An inode holds what it holds. -/
theorem holds_contentsOf : Holds (contentsOf i db) i db := by
  constructor
  · intro id hid
    rw [contentsOf, List.mem_map] at hid
    obtain ⟨r, hr, heq⟩ := hid
    rw [List.mem_filter, decide_eq_true_iff] at hr
    exact ⟨r, hr.1, heq, hr.2⟩
  · intro ref href
    rw [contentsOf, List.mem_filter] at href
    exact href.1

theorem observe_keptRefs (h : TrashTables targeted begun emptying swept s) :
    ∀ i, ∀ ref ∈ ((s.observe after).kept i).refs,
      ref.revisionId ∈ ((s.observe after).kept i).revisions := by
  intro i
  simp only [TrashRun.observe]
  split
  · exact contentsOf_refs
  · exact h.keptRefs i

/-! ## The effects of the statements -/

/-- The contents refer to their own revisions. -/
def SelfContained (c : FileContents) : Prop := ∀ ref ∈ c.refs, ref.revisionId ∈ c.revisions

/-- A step that deletes inodes or leaves them alone, and keeps what the others hold. -/
theorem TrashTables.shrink (h : TrashTables targeted begun emptying swept s)
    (hinodes : ∀ r ∈ after.db.inodes, r ∈ s.world.db.inodes)
    (hids : (after.db.inodes.map (·.id)).Nodup) (hnow : s.world.now ≤ after.now)
    (hrevisionIds : (after.db.fileRevisions.map (·.revisionId)).Nodup)
    (hrevisionInode : ∀ r ∈ after.db.fileRevisions, ∃ n ∈ after.db.inodes, n.id = r.inodeId)
    (hsequence : ∀ r ∈ after.db.fileRevisions, r.revisionId ≤ after.db.revisionSequence)
    (hregistered : s.world.db.revisionSequence ≤ after.db.revisionSequence)
    (hactive : ∀ r ∈ s.world.db.inodes, r.deletedAt = none → r ∈ after.db.inodes)
    (hholds : ∀ r ∈ after.db.inodes, (begun' r.id → r.deletedAt = none) → ∀ c, SelfContained c →
      Holds c r.id s.world.db → Holds c r.id after.db)
    (htargeted : ∀ i, targeted' i → targeted i)
    (hbegun : ∀ r ∈ after.db.inodes, begun r.id → begun' r.id)
    (hswept : ∀ i, swept' i → swept i)
    (hrefs : ∀ c ∈ s.registered, ∀ r ∈ after.db.fileRevisions, r.revisionId = c.revisionId →
      c ∈ after.db.chunkRefs ∨ emptying' r.inodeId) :
    TrashTables targeted' begun' emptying' swept' (s.observe after) where
  ids := hids
  revisionIds := hrevisionIds
  revisionInode := hrevisionInode
  sequence := hsequence
  registered c hc := (h.registered c hc).trans hregistered
  since r hr t ht := by
    rw [observe_since_of_mem h.ids hids (hinodes r hr) hr ht]
    exact h.since r (hinodes r hr) t ht
  kept r hr hnot := by
    rw [observe_kept_of_mem h.ids hids (hinodes r hr) hr]
    apply hholds r hr (fun hb => absurd hb hnot) _ (h.keptRefs r.id)
    exact h.kept r (hinodes r hr) fun hb => hnot (hbegun r hr hb)
  keptRefs := observe_keptRefs h
  owed i c hc := by
    obtain ⟨⟨r, hr, rfl, hnone⟩, hheld, hself⟩ := h.owed i c hc
    have hr' := hactive r hr hnone
    exact ⟨⟨r, hr', rfl, hnone⟩, hholds r hr' (fun _ => hnone) c hself hheld, hself⟩
  targeted r hr ht := h.targeted r (hinodes r hr) (htargeted _ ht)
  swept r hr hs := by
    obtain ⟨t, ht, hlt⟩ := h.swept r (hinodes r hr) (hswept _ hs)
    exact ⟨t, ht, hlt.trans_le hnow⟩
  registeredRefs := hrefs

/-- The clock goes on. -/
theorem TrashTables.tick (h : TrashTables targeted begun emptying swept s) (ms : ℕ) :
    TrashTables targeted begun emptying swept
      (s.observe { s.world with now := s.world.now + ms }) := by
  apply h.shrink
  · exact fun _ hr => hr
  · exact h.ids
  · show s.world.now ≤ s.world.now + ms
    omega
  · exact h.revisionIds
  · exact h.revisionInode
  · exact h.sequence
  · exact le_rfl
  · exact fun _ hr _ => hr
  · exact fun _ _ _ _ _ hc => hc
  · exact fun _ ht => ht
  · exact fun _ _ hb => hb
  · exact fun _ hs => hs
  · exact h.registeredRefs

/-- A statement that reads leaves everything as it was. -/
theorem TrashTables.read (h : TrashTables targeted begun emptying swept s) :
    TrashTables targeted begun emptying swept (s.observe s.world) := by
  have htick := h.tick 0
  rw [Int.natCast_zero, Int.add_zero] at htick
  exact htick

/-- A new revision of an inode that exists. -/
theorem TrashTables.newRevision (h : TrashTables targeted begun emptying swept s)
    {size : ℤ} {immutableUntil : Option ℤ} {deviceId : Option String} {parent : Option ℤ}
    {origin : String} {reason : Option String} (hallowed : revisionAllowed i parent s.world.db) :
    TrashTables targeted begun emptying swept (s.observe { s.world with
      db := Db.appendRevision i size immutableUntil deviceId parent origin reason s.world.now
        (Db.clearCurrent i s.world.db) }) := by
  have hids : (Db.clearCurrent i s.world.db).fileRevisions.map (·.revisionId) =
      s.world.db.fileRevisions.map (·.revisionId) :=
    map_updateWhere (by intro r; rfl) _
  -- an old revision keeps its identifier and its inode
  have hold : ∀ r ∈ s.world.db.fileRevisions, ∃ r' ∈ (Db.clearCurrent i s.world.db).fileRevisions,
      r'.revisionId = r.revisionId ∧ r'.inodeId = r.inodeId := by
    intro r hr
    refine ⟨_, mem_updateWhere.mpr ⟨r, hr, rfl⟩, ?_, ?_⟩
    · split <;> rfl
    · split <;> rfl
  have hnew : ∀ r ∈ (Db.clearCurrent i s.world.db).fileRevisions, ∃ r' ∈ s.world.db.fileRevisions,
      r.revisionId = r'.revisionId ∧ r.inodeId = r'.inodeId := by
    intro r hr
    obtain ⟨r', hr', rfl⟩ := mem_updateWhere.mp hr
    refine ⟨r', hr', ?_, ?_⟩
    · split <;> rfl
    · split <;> rfl
  apply h.shrink
  · exact fun _ hr => hr
  · exact h.ids
  · exact le_rfl
  · apply nodup_append_fresh
    · rw [hids]
      exact h.revisionIds
    · intro r hr
      obtain ⟨r', hr', hid, -⟩ := hnew r hr
      have hle := h.sequence r' hr'
      simp only [Db.clearCurrent]
      omega
  · intro r hr
    rcases List.mem_append.mp hr with hr | hr
    · obtain ⟨r', hr', -, hinode⟩ := hnew r hr
      rw [hinode]
      exact h.revisionInode r' hr'
    · rw [List.mem_singleton.mp hr]
      rw [revisionAllowed, Bool.and_eq_true] at hallowed
      obtain ⟨n, hn⟩ := Option.isSome_iff_exists.mp hallowed.1
      exact ⟨n, List.mem_of_find?_eq_some hn, by simpa using List.find?_some hn⟩
  · intro r hr
    show r.revisionId ≤ s.world.db.revisionSequence + 1
    rcases List.mem_append.mp hr with hr | hr
    · obtain ⟨r', hr', hid, -⟩ := hnew r hr
      have hle := h.sequence r' hr'
      omega
    · rw [List.mem_singleton.mp hr]
      exact le_rfl
  · show s.world.db.revisionSequence ≤ s.world.db.revisionSequence + 1
    omega
  · exact fun _ hr _ => hr
  · intro _ _ _ c _ hc
    refine ⟨?_, hc.2⟩
    intro id hid
    obtain ⟨r, hr, hrid, hinode⟩ := hc.1 id hid
    obtain ⟨r', hr', hrid', hinode'⟩ := hold r hr
    exact ⟨r', List.mem_append_left _ hr', hrid'.trans hrid, hinode'.trans hinode⟩
  · exact fun _ ht => ht
  · exact fun _ _ hb => hb
  · exact fun _ hs => hs
  · intro c hc r hr hid
    rcases List.mem_append.mp hr with hr | hr
    · obtain ⟨r', hr', hrid, hinode⟩ := hnew r hr
      rw [hinode]
      exact h.registeredRefs c hc r' hr' (hrid.symm.trans hid)
    · rw [List.mem_singleton.mp hr] at hid
      have hle := h.registered c hc
      simp only [Db.clearCurrent] at hid
      omega

/-- A new chunk reference of a revision that exists. -/
theorem TrashTables.registerChunk (h : TrashTables targeted begun emptying swept s)
    {revisionId offset size : ℤ} {chunkId : Bytes}
    (hallowed : s.world.db.fileRevisions.any (·.revisionId = revisionId)) :
    let db := Db.appendChunkRef revisionId chunkId offset size s.world.db
    TrashTables targeted begun emptying swept
      { s.observe { s.world with db } with
        registered := s.registered ++ db.chunkRefs.drop s.world.db.chunkRefs.length } := by
  intro db
  have hnew : db.chunkRefs.drop s.world.db.chunkRefs.length =
      [{ id := s.world.db.chunkRefSequence + 1, revisionId, chunkId, fileOffset := offset, size }] :=
    List.drop_left
  have hobserved : TrashTables targeted begun emptying swept
      (s.observe { s.world with db }) := by
    apply h.shrink
    · exact fun _ hr => hr
    · exact h.ids
    · exact le_rfl
    · exact h.revisionIds
    · exact h.revisionInode
    · exact h.sequence
    · exact le_rfl
    · exact fun _ hr _ => hr
    · intro _ _ _ c _ hc
      exact ⟨hc.1, fun ref href => List.mem_append_left _ (hc.2 ref href)⟩
    · exact fun _ ht => ht
    · exact fun _ _ hb => hb
    · exact fun _ hs => hs
    · intro c hc r hr hid
      exact (h.registeredRefs c hc r hr hid).imp_left (List.mem_append_left _)
  rw [hnew]
  refine ⟨hobserved.ids, hobserved.revisionIds, hobserved.revisionInode, hobserved.sequence, ?_,
    hobserved.since, hobserved.kept, hobserved.keptRefs, hobserved.owed, hobserved.targeted,
    hobserved.swept, ?_⟩
  · intro c hc
    rcases List.mem_append.mp hc with hc | hc
    · exact h.registered c hc
    · rw [List.mem_singleton.mp hc]
      obtain ⟨r, hr, hid⟩ := List.any_eq_true.mp hallowed
      rw [← of_decide_eq_true hid]
      exact h.sequence r hr
  · intro c hc r hr hid
    rcases List.mem_append.mp hc with hc | hc
    · exact hobserved.registeredRefs c hc r hr hid
    · rw [List.mem_singleton.mp hc]
      exact Or.inl (List.mem_append_right _ (List.mem_singleton_self _))

/-! ### The statements of a hard delete -/

/-- Deleting the references of one inode keeps those of another. -/
theorem holds_deleteRefs (hids : (db.fileRevisions.map (·.revisionId)).Nodup) (hij : i ≠ j)
    {c : FileContents} (hself : SelfContained c) (hc : Holds c i db) :
    Holds c i (deleteRefs j db) := by
  refine ⟨hc.1, ?_⟩
  intro ref href
  obtain ⟨r, hr, hid, hinode⟩ := hc.1 _ (hself ref href)
  rw [deleteRefs, mem_deleteWhere, ← hid, isRevisionOf_eq hids hr, hinode]
  exact ⟨hc.2 ref href, decide_eq_false hij⟩

/-- Deleting the revisions of one inode keeps those of another. -/
theorem holds_deleteRevisions (hids : (db.fileRevisions.map (·.revisionId)).Nodup) (hij : i ≠ j)
    {c : FileContents} (hself : SelfContained c) (hc : Holds c i db) :
    Holds c i (deleteRevisions j db) := by
  refine ⟨?_, (holds_deleteRefs hids hij hself hc).2⟩
  intro id hid
  obtain ⟨r, hr, hrid, hinode⟩ := hc.1 id hid
  refine ⟨dropParent (fun revisionId => isRevisionOf j revisionId db) r,
    List.mem_map_of_mem (mem_deleteWhere.mpr ⟨hr, decide_eq_false ?_⟩), hrid, hinode⟩
  rw [hinode]
  exact hij

/-- A revision that a deletion leaves was there and is of another inode. -/
theorem mem_deleteRevisions {r : FileRevisionRecord} (hr : r ∈ (deleteRevisions j db).fileRevisions) :
    ∃ r' ∈ db.fileRevisions, r.revisionId = r'.revisionId ∧ r.inodeId = r'.inodeId ∧
      r.inodeId ≠ j := by
  obtain ⟨r', hr', rfl⟩ := List.mem_map.mp hr
  rw [mem_deleteWhere, decide_eq_false_iff_not] at hr'
  exact ⟨r', hr'.1, rfl, rfl, hr'.2⟩

theorem revisionIds_deleteRevisions (hids : (db.fileRevisions.map (·.revisionId)).Nodup) :
    ((deleteRevisions j db).fileRevisions.map (·.revisionId)).Nodup := by
  rw [deleteRevisions, List.map_map]
  exact hids.sublist (List.Sublist.map _ List.filter_sublist)

/-- A reference of a remaining revision is left by a deletion. -/
theorem mem_chunkRefs_deleteRevisions (hids : (db.fileRevisions.map (·.revisionId)).Nodup)
    {c : ChunkRefRecord} (hc : c ∈ db.chunkRefs) {r : FileRevisionRecord}
    (hr : r ∈ db.fileRevisions) (hid : r.revisionId = c.revisionId) (hij : r.inodeId ≠ j) :
    c ∈ (deleteRevisions j db).chunkRefs := by
  rw [deleteRevisions, mem_deleteWhere]
  show c ∈ _ ∧ isRevisionOf j c.revisionId db = false
  rw [← hid, isRevisionOf_eq hids hr]
  exact ⟨hc, decide_eq_false hij⟩

/-- The references of a target are deleted; its deletion has begun. -/
theorem TrashTables.deleteRefs (h : TrashTables targeted begun emptying swept s) (hj : targeted j)
    (htargeted : ∀ i, targeted' i → targeted i) (hbegun : ∀ i, begun i → begun' i)
    (hswept : ∀ i, swept' i → swept i) (hemptying : ∀ i, emptying i → emptying' i)
    (hjbegun : begun' j) (hjemptying : emptying' j) :
    TrashTables targeted' begun' emptying' swept'
      (s.observe { s.world with db := Trash.deleteRefs j s.world.db }) := by
  apply h.shrink
  · exact fun _ hr => hr
  · exact h.ids
  · exact le_rfl
  · exact h.revisionIds
  · exact h.revisionInode
  · exact h.sequence
  · exact le_rfl
  · exact fun _ hr _ => hr
  · intro r hr hstate c hself hc
    apply holds_deleteRefs h.revisionIds _ hself hc
    intro hid
    rw [hid] at hstate
    exact h.targeted r hr (hid ▸ hj) (hstate hjbegun)
  · exact htargeted
  · exact fun _ _ hb => hbegun _ hb
  · exact hswept
  · intro c hc r hr hid
    by_cases hinode : r.inodeId = j
    · rw [hinode]
      exact Or.inr hjemptying
    · refine (h.registeredRefs c hc r hr hid).imp (fun hmem => ?_) (hemptying _)
      rw [Trash.deleteRefs, mem_deleteWhere, ← hid, isRevisionOf_eq h.revisionIds hr]
      exact ⟨hmem, decide_eq_false hinode⟩

/-- The revisions of a target are deleted. -/
theorem TrashTables.deleteRevisions (h : TrashTables targeted begun emptying swept s)
    (hj : targeted j) (htargeted : ∀ i, targeted' i → targeted i)
    (hbegun : ∀ i, begun i → begun' i) (hswept : ∀ i, swept' i → swept i)
    (hemptying : ∀ i ≠ j, emptying i → emptying' i) (hjbegun : begun' j) :
    TrashTables targeted' begun' emptying' swept'
      (s.observe { s.world with db := Trash.deleteRevisions j s.world.db }) := by
  apply h.shrink
  · exact fun _ hr => hr
  · exact h.ids
  · exact le_rfl
  · exact revisionIds_deleteRevisions h.revisionIds
  · intro r hr
    obtain ⟨r', hr', -, hinode, -⟩ := mem_deleteRevisions hr
    rw [hinode]
    exact h.revisionInode r' hr'
  · intro r hr
    obtain ⟨r', hr', hid, -, -⟩ := mem_deleteRevisions hr
    rw [hid]
    exact h.sequence r' hr'
  · exact le_rfl
  · exact fun _ hr _ => hr
  · intro r hr hstate c hself hc
    apply holds_deleteRevisions h.revisionIds _ hself hc
    intro hid
    rw [hid] at hstate
    exact h.targeted r hr (hid ▸ hj) (hstate hjbegun)
  · exact htargeted
  · exact fun _ _ hb => hbegun _ hb
  · exact hswept
  · intro c hc r hr hid
    obtain ⟨r', hr', hid', hinode, hne⟩ := mem_deleteRevisions hr
    rw [hinode] at hne ⊢
    refine (h.registeredRefs c hc r' hr' (hid'.symm.trans hid)).imp (fun hmem => ?_)
      (hemptying _ hne)
    exact mem_chunkRefs_deleteRevisions h.revisionIds hmem hr' (hid'.symm.trans hid) hne

/-- A target is deleted. -/
theorem TrashTables.deleteInode (h : TrashTables targeted begun emptying swept s)
    (hj : targeted j) (htargeted : ∀ i, targeted' i → targeted i)
    (hbegun : ∀ i ≠ j, begun i → begun' i) (hswept : ∀ i, swept' i → swept i)
    (hemptying : ∀ i ≠ j, emptying i → emptying' i) :
    TrashTables targeted' begun' emptying' swept'
      (s.observe { s.world with db := Trash.deleteInode j s.world.db }) := by
  have hleft : ∀ r ∈ (Trash.deleteInode j s.world.db).inodes,
      r ∈ s.world.db.inodes ∧ r.id ≠ j := by
    intro r hr
    rw [Trash.deleteInode, mem_deleteWhere, decide_eq_false_iff_not] at hr
    exact hr
  apply h.shrink
  · exact fun r hr => (hleft r hr).1
  · exact h.ids.sublist (List.Sublist.map _ List.filter_sublist)
  · exact le_rfl
  · exact revisionIds_deleteRevisions h.revisionIds
  · intro r hr
    obtain ⟨r', hr', -, hinode, hne⟩ := mem_deleteRevisions hr
    obtain ⟨n, hn, hid⟩ := h.revisionInode r' hr'
    rw [hinode, ← hid] at hne ⊢
    exact ⟨n, mem_deleteWhere.mpr ⟨hn, decide_eq_false hne⟩, rfl⟩
  · intro r hr
    obtain ⟨r', hr', hid, -, -⟩ := mem_deleteRevisions hr
    rw [hid]
    exact h.sequence r' hr'
  · exact le_rfl
  · intro r hr hnone
    have hne : r.id ≠ j := by
      intro hid
      rw [← hid] at hj
      exact h.targeted r hr hj hnone
    exact mem_deleteWhere.mpr ⟨hr, decide_eq_false hne⟩
  · intro r hr _ c hself hc
    exact holds_deleteRevisions h.revisionIds (hleft r hr).2 hself hc
  · exact htargeted
  · exact fun r hr hb => hbegun _ (hleft r hr).2 hb
  · exact hswept
  · intro c hc r hr hid
    obtain ⟨r', hr', hid', hinode, hne⟩ := mem_deleteRevisions hr
    rw [hinode] at hne ⊢
    refine (h.registeredRefs c hc r' hr' (hid'.symm.trans hid)).imp (fun hmem => ?_)
      (hemptying _ hne)
    exact mem_chunkRefs_deleteRevisions h.revisionIds hmem hr' (hid'.symm.trans hid) hne

/-! ### Delete and restore -/

/-- An inode goes to the trash, and nothing is owed for it any more. -/
theorem TrashTables.softDelete (h : TrashTables targeted begun emptying swept s) (j : ℤ) :
    TrashTables targeted begun emptying swept
      ((s.observe { s.world with
        db := softDeleteInode j s.world.now s.world.db }).release j) := by
  have hids : ((softDeleteInode j s.world.now s.world.db).inodes.map (·.id)).Nodup := by
    rw [softDeleteInode, map_updateWhere (by intro r; rfl)]
    exact h.ids
  -- a row is an old one, or has just gone to the trash
  have hrow : ∀ r ∈ (softDeleteInode j s.world.now s.world.db).inodes,
      r ∈ s.world.db.inodes ∨ ∃ r' ∈ s.world.db.inodes, r.id = r'.id ∧ r'.id = j ∧
        r'.deletedAt = none ∧ r.deletedAt = some s.world.now := by
    intro r hr
    obtain ⟨r', hr', heq⟩ := mem_updateWhere.mp hr
    by_cases hcond : (r'.id = j && r'.kind = "FILE" && r'.deletedAt.isNone) = true
    · rw [if_pos hcond] at heq
      simp only [Bool.and_eq_true, decide_eq_true_iff, Option.isNone_iff_eq_none] at hcond
      rw [← heq]
      exact Or.inr ⟨r', hr', rfl, hcond.1.1, hcond.2, rfl⟩
    · rw [if_neg hcond] at heq
      rw [← heq]
      exact Or.inl hr'
  have hother : ∀ r ∈ s.world.db.inodes, r.id ≠ j →
      r ∈ (softDeleteInode j s.world.now s.world.db).inodes := by
    intro r hr hne
    exact mem_updateWhere.mpr ⟨r, hr, by simp [hne]⟩
  have hmoved : ∀ r ∈ (softDeleteInode j s.world.now s.world.db).inodes,
      ∀ r' ∈ s.world.db.inodes, r.id = r'.id → r'.deletedAt = none →
      r.deletedAt = some s.world.now →
      deletedAt r.id s.world.db = none ∧
        deletedAt r.id (softDeleteInode j s.world.now s.world.db) = some s.world.now := by
    intro r hr r' hr' hid hbefore hafter
    rw [deletedAt_of_mem hids hr, hid, deletedAt_of_mem h.ids hr']
    exact ⟨hbefore, hafter⟩
  have hkept : ∀ r ∈ s.world.db.inodes,
      r ∈ (softDeleteInode j s.world.now s.world.db).inodes →
      (s.observe { s.world with
        db := softDeleteInode j s.world.now s.world.db }).kept r.id = s.kept r.id := by
    intro r hr hr'
    exact observe_kept_of_mem h.ids hids hr hr'
  constructor
  · exact hids
  · exact h.revisionIds
  · intro r hr
    obtain ⟨n, hn, hid⟩ := h.revisionInode r hr
    refine ⟨_, mem_updateWhere.mpr ⟨n, hn, rfl⟩, ?_⟩
    split
    · exact hid
    · exact hid
  · exact h.sequence
  · exact h.registered
  · intro r hr t ht
    rcases hrow r hr with hold | ⟨r', hr', hid, -, hnone, hsome⟩
    · rw [← h.since r hold t ht]
      exact observe_since_of_mem h.ids hids hold hr ht
    · obtain ⟨hbefore, hafter⟩ := hmoved r hr r' hr' hid hnone hsome
      rw [hsome] at ht
      simp only [TrashRun.release, TrashRun.observe, hbefore, hafter]
      exact ht
  · intro r hr hnot
    rcases hrow r hr with hold | ⟨r', hr', hid, -, hnone, hsome⟩
    · show Holds ((s.observe _).kept r.id) r.id _
      rw [hkept r hold hr]
      exact h.kept r hold hnot
    · obtain ⟨hbefore, hafter⟩ := hmoved r hr r' hr' hid hnone hsome
      simp only [TrashRun.release, TrashRun.observe, hbefore, hafter]
      exact holds_contentsOf
  · exact observe_keptRefs h
  · intro i c hc
    by_cases hij : i = j
    · rw [hij] at hc
      simp [TrashRun.release] at hc
    · have hc' : s.owed i = some c := by
        simpa [TrashRun.release, TrashRun.observe, Function.update_of_ne hij] using hc
      obtain ⟨⟨r, hr, hid, hnone⟩, hheld, hself⟩ := h.owed i c hc'
      refine ⟨⟨r, hother r hr ?_, hid, hnone⟩, hheld, hself⟩
      rw [hid]
      exact hij
  · intro r hr ht
    rcases hrow r hr with hold | ⟨r', hr', hid, -, hnone, hsome⟩
    · exact h.targeted r hold ht
    · rw [hsome]
      exact Option.some_ne_none _
  · intro r hr hs
    rcases hrow r hr with hold | ⟨r', hr', hid, -, hnone, -⟩
    · exact h.swept r hold hs
    · rw [hid] at hs
      obtain ⟨t, ht, -⟩ := h.swept r' hr' hs
      rw [hnone] at ht
      cases ht
  · exact h.registeredRefs

/-- A restore takes an inode that nothing targets out of the trash and owes what it held. -/
theorem TrashTables.undelete (h : TrashTables targeted begun emptying swept s) {name : String}
    (hexists : ∃ r ∈ s.world.db.inodes, r.id = j) (htargeted : ¬ targeted j)
    (hbegun : ¬ begun j) (hswept : ¬ swept j) :
    TrashTables targeted begun emptying swept
      { s.observe { s.world with db := Trash.undelete j name s.world.db } with
        owed := Function.update s.owed j (some (s.kept j)) } := by
  have hids : ((Trash.undelete j name s.world.db).inodes.map (·.id)).Nodup := by
    rw [Trash.undelete, map_updateWhere (by intro r; rfl)]
    exact h.ids
  have hrow : ∀ r ∈ (Trash.undelete j name s.world.db).inodes,
      (r ∈ s.world.db.inodes ∧ r.id ≠ j) ∨
        ∃ r' ∈ s.world.db.inodes, r'.id = j ∧ r.id = j ∧ r.deletedAt = none := by
    intro r hr
    obtain ⟨r', hr', heq⟩ := mem_updateWhere.mp hr
    by_cases hid : r'.id = j
    · rw [if_pos (decide_eq_true hid)] at heq
      rw [← heq]
      exact Or.inr ⟨r', hr', hid, hid, rfl⟩
    · rw [if_neg (by simpa using hid)] at heq
      rw [← heq]
      exact Or.inl ⟨hr', hid⟩
  have hother : ∀ r ∈ s.world.db.inodes, r.id ≠ j →
      r ∈ (Trash.undelete j name s.world.db).inodes := by
    intro r hr hne
    exact mem_updateWhere.mpr ⟨r, hr, by simp [hne]⟩
  have hrestored : ∃ r ∈ (Trash.undelete j name s.world.db).inodes,
      r.id = j ∧ r.deletedAt = none := by
    obtain ⟨r, hr, hid⟩ := hexists
    exact ⟨_, mem_updateWhere.mpr ⟨r, hr, rfl⟩, by simp [hid]⟩
  have hkeptj : (s.observe
      { s.world with db := Trash.undelete j name s.world.db }).kept j = s.kept j := by
    obtain ⟨r, hr, hid, hnone⟩ := hrestored
    have hafter := deletedAt_of_mem hids hr
    rw [hid, hnone] at hafter
    simp [TrashRun.observe, hafter]
  have hkept : ∀ r ∈ s.world.db.inodes, r ∈ (Trash.undelete j name s.world.db).inodes →
      (s.observe { s.world with
        db := Trash.undelete j name s.world.db }).kept r.id = s.kept r.id := by
    intro r hr hr'
    exact observe_kept_of_mem h.ids hids hr hr'
  constructor
  · exact hids
  · exact h.revisionIds
  · intro r hr
    obtain ⟨n, hn, hid⟩ := h.revisionInode r hr
    refine ⟨_, mem_updateWhere.mpr ⟨n, hn, rfl⟩, ?_⟩
    split
    · exact hid
    · exact hid
  · exact h.sequence
  · exact h.registered
  · intro r hr t ht
    rcases hrow r hr with ⟨hold, -⟩ | ⟨-, -, -, -, hnone⟩
    · rw [← h.since r hold t ht]
      exact observe_since_of_mem h.ids hids hold hr ht
    · rw [hnone] at ht
      cases ht
  · intro r hr hnot
    rcases hrow r hr with ⟨hold, -⟩ | ⟨r', hr', hid', hid, -⟩
    · show Holds ((s.observe _).kept r.id) r.id _
      rw [hkept r hold hr]
      exact h.kept r hold hnot
    · show Holds ((s.observe _).kept r.id) r.id _
      rw [hid, hkeptj, ← hid']
      exact h.kept r' hr' (hid' ▸ hbegun)
  · exact observe_keptRefs h
  · intro i c hc
    by_cases hij : i = j
    · rw [hij] at hc ⊢
      have hc' : s.kept j = c := by simpa using hc
      obtain ⟨r, hr, hid⟩ := hexists
      rw [← hc']
      refine ⟨hrestored, ?_, h.keptRefs j⟩
      rw [← hid]
      exact h.kept r hr (hid ▸ hbegun)
    · have hc' : s.owed i = some c := by
        simpa [Function.update_of_ne hij] using hc
      obtain ⟨⟨r, hr, hid, hnone⟩, hheld, hself⟩ := h.owed i c hc'
      refine ⟨⟨r, hother r hr ?_, hid, hnone⟩, hheld, hself⟩
      rw [hid]
      exact hij
  · intro r hr ht
    rcases hrow r hr with ⟨hold, -⟩ | ⟨-, -, -, hid, -⟩
    · exact h.targeted r hold ht
    · exact absurd (hid ▸ ht) htargeted
  · intro r hr hs
    rcases hrow r hr with ⟨hold, -⟩ | ⟨-, -, -, hid, -⟩
    · exact h.swept r hold hs
    · exact absurd (hid ▸ hs) hswept
  · exact h.registeredRefs

/-- A request to delete takes back what is owed. -/
theorem TrashTables.release (h : TrashTables targeted begun emptying swept s) (j : ℤ) :
    TrashTables targeted begun emptying swept (s.release j) := by
  refine ⟨h.ids, h.revisionIds, h.revisionInode, h.sequence, h.registered, h.since, h.kept,
    h.keptRefs, ?_, h.targeted, h.swept, h.registeredRefs⟩
  intro i c hc
  by_cases hij : i = j
  · rw [hij] at hc
    simp [TrashRun.release] at hc
  · apply h.owed i c
    simpa [TrashRun.release, Function.update_of_ne hij] using hc

/-- Further targets must be in the trash, and those that the sweeper lists for long enough. -/
theorem TrashTables.target (h : TrashTables targeted begun emptying swept s)
    (htargeted : ∀ r ∈ s.world.db.inodes, targeted' r.id → targeted r.id ∨ r.deletedAt ≠ none)
    (hswept : ∀ r ∈ s.world.db.inodes, swept' r.id → swept r.id ∨
      ∃ t, r.deletedAt = some t ∧ t + softDeleteGraceMs < s.world.now) :
    TrashTables targeted' begun emptying swept' s where
  ids := h.ids
  revisionIds := h.revisionIds
  revisionInode := h.revisionInode
  sequence := h.sequence
  registered := h.registered
  since := h.since
  kept := h.kept
  keptRefs := h.keptRefs
  owed := h.owed
  targeted r hr ht := (htargeted r hr ht).elim (h.targeted r hr) id
  swept r hr hs := (hswept r hr hs).elim (h.swept r hr) id
  registeredRefs := h.registeredRefs

end Tables

end Trash

end OmniDrive
