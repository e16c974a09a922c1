import OmniDrive.Library.Ancestry
import OmniDrive.Storage.RevisionOutcome

/-!
# The history of a file

The revisions of an inode, the copies that conflicts leave beside it, and the events that link
them: what a new revision, a copy and a promotion do to them, and what of them stays.
-/

namespace OmniDrive

open StatementProgram Tables Ancestry

variable {P : Primitives}

namespace Db

/-- One revision of an inode is the current one. -/
def setCurrent (inodeId revisionId : ℤ) (db : FileDb) : FileDb :=
  { db with
    fileRevisions := updateWhere (·.revisionId = revisionId) (fun r => { r with isCurrent := true })
      (clearCurrent inodeId db).fileRevisions }

/-- The read and both writes of a promotion commit together. -/
def promoteRevisionToCurrent (revisionId : ℤ) : FileProg P DbError Unit := do
  let revision ← Prog.execReturning
    (fun w =>
      match w.db.fileRevisions.find? (·.revisionId = revisionId) with
      | some r => { w with db := setCurrent r.inodeId revisionId w.db }
      | none => w)
    fun w => w.db.fileRevisions.find? (·.revisionId = revisionId)
  let _ ← Prog.ofOption .rowNotFound revision
  pure ()

end Db

/-! ## Histories -/

/-- The parent of a revision. -/
def parentOf (revisions : List FileRevisionRecord) (revisionId : ℤ) : Option ℤ :=
  (revisions.find? (·.revisionId = revisionId)).bind (·.parentRevisionId)

/-- What a file table says about the edits of files. -/
structure History where
  inodeIds : List ℤ
  inodeSequence : ℤ
  revisions : List FileRevisionRecord
  revisionSequence : ℤ
  refs : List ChunkRefRecord
  conflicts : List ConflictEventRecord
  conflictSequence : ℤ

def historyOf (db : FileDb) : History where
  inodeIds := db.inodes.map (·.id)
  inodeSequence := db.inodeSequence
  revisions := db.fileRevisions
  revisionSequence := db.revisionSequence
  refs := db.chunkRefs
  conflicts := db.conflictEvents
  conflictSequence := db.conflictSequence

namespace History

/-- The references of a revision, in the order of the file. -/
def refsOf (revisionId : ℤ) (h : History) : List ChunkRefRecord :=
  orderBy (·.fileOffset) (h.refs.filter (·.revisionId = revisionId))

/-- A reference without its keys. -/
def content (r : ChunkRefRecord) : Bytes × ℤ × ℤ := (r.chunkId, r.fileOffset, r.size)

/-- The keys and foreign keys of a history. Each inode after the first ones holds a copy, which is
its only revision. -/
structure Inv (first : ℤ) (h : History) : Prop where
  start : first ≤ h.inodeSequence
  inodeIds : ∀ i ∈ h.inodeIds, i ≤ h.inodeSequence
  revisionIds : ∀ r ∈ h.revisions, r.revisionId ≤ h.revisionSequence
  nodup : (h.revisions.map (·.revisionId)).Nodup
  parents : ∀ r ∈ h.revisions, ∀ p ∈ r.parentRevisionId,
    p < r.revisionId ∧ ∃ q ∈ h.revisions, q.revisionId = p
  inodes : ∀ r ∈ h.revisions, r.inodeId ∈ h.inodeIds
  current : ∀ r ∈ h.revisions, ∃ c ∈ h.revisions, c.inodeId = r.inodeId ∧ c.isCurrent = true
  only : ∀ c ∈ h.revisions, ∀ c' ∈ h.revisions, c.inodeId = c'.inodeId → c.isCurrent = true →
    c'.isCurrent = true → c = c'
  copies : ∀ r ∈ h.revisions, first < r.inodeId → ∀ r' ∈ h.revisions,
    r'.inodeId = r.inodeId → r' = r
  refIds : ∀ r ∈ h.refs, r.revisionId ≤ h.revisionSequence
  conflictIds : ∀ e ∈ h.conflicts, e.conflictId ≤ h.conflictSequence

/-- Inodes without revisions are in order. -/
theorem Inv.fresh {first : ℤ} {h : History} (hstart : first ≤ h.inodeSequence)
    (hids : ∀ i ∈ h.inodeIds, i ≤ h.inodeSequence) (hrevisions : h.revisions = [])
    (hrefs : h.refs = []) (hconflicts : h.conflicts = []) : h.Inv first := by
  refine ⟨hstart, hids, ?_, ?_, ?_, ?_, ?_, ?_, ?_, ?_, ?_⟩ <;> simp [hrevisions, hrefs, hconflicts]

/-- What later edits of the first inodes leave of a history. -/
structure Grows (first : ℤ) (h h' : History) : Prop where
  inodeIds : ∀ i ∈ h.inodeIds, i ∈ h'.inodeIds
  sequence : h.revisionSequence ≤ h'.revisionSequence
  parents : ∀ revisionId ≤ h.revisionSequence,
    parentOf h'.revisions revisionId = parentOf h.revisions revisionId
  others : ∀ r ∈ h.revisions, first < r.inodeId → r ∈ h'.revisions
  refs : ∀ revisionId ≤ h.revisionSequence, h'.refsOf revisionId = h.refsOf revisionId
  conflicts : ∀ e ∈ h.conflicts, e ∈ h'.conflicts

variable {first : ℤ} {h h' h'' : History}

theorem Grows.refl (first : ℤ) (h : History) : Grows first h h :=
  ⟨fun _ hi => hi, le_rfl, fun _ _ => rfl, fun _ hr _ => hr, fun _ _ => rfl, fun _ he => he⟩

theorem Grows.trans (hg : Grows first h h') (hg' : Grows first h' h'') :
    Grows first h h'' where
  inodeIds i hi := hg'.inodeIds i (hg.inodeIds i hi)
  sequence := hg.sequence.trans hg'.sequence
  parents r hr := (hg'.parents r (hr.trans hg.sequence)).trans (hg.parents r hr)
  others r hr hne := hg'.others r (hg.others r hr hne) hne
  refs r hr := (hg'.refs r (hr.trans hg.sequence)).trans (hg.refs r hr)
  conflicts e he := hg'.conflicts e (hg.conflicts e he)

/-! ### Ancestors -/

/-- One revision is among the ancestors of another. -/
abbrev RevisionAncestor (h : History) : ℤ → ℤ → Prop := Ancestor (parentOf h.revisions)

/-- The row of a revision. -/
theorem find?_of_mem (hinv : h.Inv first) {r : FileRevisionRecord} (hr : r ∈ h.revisions) :
    h.revisions.find? (·.revisionId = r.revisionId) = some r :=
  find?_of_nodup hinv.nodup hr

theorem parentOf_eq_some {c p : ℤ} (hp : parentOf h.revisions c = some p) :
    ∃ r ∈ h.revisions, r.revisionId = c ∧ r.parentRevisionId = some p := by
  obtain ⟨r, hfind, hparent⟩ := Option.bind_eq_some_iff.mp hp
  exact ⟨r, List.mem_of_find?_eq_some hfind, by simpa using List.find?_some hfind, hparent⟩

/-- Parents come first. -/
theorem Inv.parent_lt (hinv : h.Inv first) (c p : ℤ) (hp : parentOf h.revisions c = some p) :
    p < c := by
  obtain ⟨r, hr, rfl, hparent⟩ := parentOf_eq_some hp
  exact (hinv.parents r hr p hparent).1

/-- Parent links form no cycle. -/
theorem Inv.acyclic (hinv : h.Inv first) (r : ℤ) : ¬ h.RevisionAncestor r r :=
  not_ancestor_self hinv.parent_lt r

/-- The ancestors of a revision that is there stay its ancestors, and get no company. -/
theorem Grows.ancestor_iff (hinv : h.Inv first) (hg : Grows first h h') {a c : ℤ}
    (hc : c ≤ h.revisionSequence) : h'.RevisionAncestor a c ↔ h.RevisionAncestor a c := by
  have hclosed : ∀ c p, c ≤ h.revisionSequence → parentOf h.revisions c = some p →
      p ≤ h.revisionSequence := by
    intro c p hc hp
    have hlt := hinv.parent_lt c p hp
    omega
  constructor
  · refine ancestor_congr (S := (· ≤ h.revisionSequence)) (fun c p hc hp => ?_)
      (fun c hc => (hg.parents c hc).symm) hc
    rw [hg.parents c hc] at hp
    exact hclosed c p hc hp
  · exact ancestor_congr (S := (· ≤ h.revisionSequence)) hclosed (fun c hc => hg.parents c hc) hc

/-! ### The writes -/

/-- The revisions of an inode with the flag of the current one cleared. -/
def cleared (inodeId : ℤ) (revisions : List FileRevisionRecord) : List FileRevisionRecord :=
  updateWhere (·.inodeId = inodeId) (fun r => { r with isCurrent := false }) revisions

theorem keys_cleared (x : ℤ) (revisions : List FileRevisionRecord) :
    (cleared x revisions).map (·.revisionId) = revisions.map (·.revisionId) := by
  apply map_updateWhere
  intro r
  rfl

/-- The row of a revision without its flag. -/
def SameRow (r r' : FileRevisionRecord) : Prop :=
  r'.revisionId = r.revisionId ∧ r'.inodeId = r.inodeId ∧ r'.parentRevisionId = r.parentRevisionId

theorem mem_cleared {x : ℤ} {revisions : List FileRevisionRecord} {r' : FileRevisionRecord}
    (hr : r' ∈ cleared x revisions) : ∃ r ∈ revisions, SameRow r r' ∧
      (r.inodeId ≠ x → r' = r) ∧ (r.inodeId = x → r'.isCurrent = false) := by
  obtain ⟨r, hmem, rfl⟩ := mem_updateWhere.mp hr
  refine ⟨r, hmem, ?_, fun hne => ?_, fun heq => ?_⟩
  · split
    · exact ⟨rfl, rfl, rfl⟩
    · exact ⟨rfl, rfl, rfl⟩
  · rw [if_neg (by simpa using hne)]
  · rw [if_pos (by simpa using heq)]

/-- Updates of the flag change no parent. -/
theorem parentOf_updateWhere (p : FileRevisionRecord → Bool) (flag : Bool)
    (revisions : List FileRevisionRecord) (revisionId : ℤ) :
    parentOf (updateWhere p (fun r => { r with isCurrent := flag }) revisions) revisionId =
      parentOf revisions revisionId := by
  have hfind : (updateWhere p (fun r => { r with isCurrent := flag }) revisions).find?
      (·.revisionId = revisionId) = (revisions.find? (·.revisionId = revisionId)).map
        fun r => if p r then { r with isCurrent := flag } else r := by
    apply find?_updateWhere
    intro r
    rfl
  rw [parentOf, parentOf, hfind]
  cases revisions.find? (·.revisionId = revisionId) with
  | none => rfl
  | some r =>
    rw [Option.map_some, Option.bind_some, Option.bind_some]
    split <;> rfl

/-- A new row is behind the others. -/
theorem parentOf_append {revisions : List FileRevisionRecord} {r : FileRevisionRecord}
    {revisionId : ℤ} (hne : r.revisionId ≠ revisionId) :
    parentOf (revisions ++ [r]) revisionId = parentOf revisions revisionId := by
  have hnone : [r].find? (·.revisionId = revisionId) = none :=
    List.find?_cons_of_neg (by simpa using hne)
  rw [parentOf, parentOf, List.find?_append, hnone, Option.or_none]

/-- A new inode. -/
def withInode (h : History) : History :=
  { h with inodeIds := h.inodeIds ++ [h.inodeSequence + 1], inodeSequence := h.inodeSequence + 1 }

theorem Inv.withInode (hinv : h.Inv first) : h.withInode.Inv first where
  start := hinv.start.trans (Int.le_add_one le_rfl)
  inodeIds i hi := by
    change i ≤ h.inodeSequence + 1
    rcases List.mem_append.mp hi with hold | hnew
    · exact (hinv.inodeIds i hold).trans (by omega)
    · exact (List.mem_singleton.mp hnew).le
  revisionIds := hinv.revisionIds
  nodup := hinv.nodup
  parents := hinv.parents
  inodes r hr := List.mem_append_left _ (hinv.inodes r hr)
  current := hinv.current
  only := hinv.only
  copies := hinv.copies
  refIds := hinv.refIds
  conflictIds := hinv.conflictIds

theorem Grows.withInode (hg : Grows first h h') : Grows first h h'.withInode :=
  ⟨fun i hi => List.mem_append_left _ (hg.inodeIds i hi), hg.sequence, hg.parents, hg.others,
    hg.refs, hg.conflicts⟩

/-- A new revision becomes the current one of its inode. -/
def withRevision (r : FileRevisionRecord) (h : History) : History :=
  { h with
    revisions := cleared r.inodeId h.revisions ++ [r]
    revisionSequence := h.revisionSequence + 1 }

/-- The row of the next revision. -/
structure Next (first : ℤ) (h : History) (r : FileRevisionRecord) : Prop where
  revisionId : r.revisionId = h.revisionSequence + 1
  inode : r.inodeId ∈ h.inodeIds
  place : r.inodeId ≤ first ∨ ∀ r' ∈ h.revisions, r'.inodeId ≠ r.inodeId
  isCurrent : r.isCurrent = true
  parent : ∀ p ∈ r.parentRevisionId, ∃ q ∈ h.revisions, q.revisionId = p

theorem mem_cleared_of_other {x : ℤ} {revisions : List FileRevisionRecord}
    {r : FileRevisionRecord} (hr : r ∈ revisions) (hne : r.inodeId ≠ x) :
    r ∈ cleared x revisions :=
  mem_updateWhere.mpr ⟨r, hr, if_neg (by simpa using hne)⟩

theorem exists_cleared {revisions : List FileRevisionRecord} {r : FileRevisionRecord}
    (hr : r ∈ revisions) (x : ℤ) : ∃ r' ∈ cleared x revisions, SameRow r r' := by
  refine ⟨_, mem_updateWhere.mpr ⟨r, hr, rfl⟩, ?_⟩
  split
  · exact ⟨rfl, rfl, rfl⟩
  · exact ⟨rfl, rfl, rfl⟩

theorem Inv.withRevision (hinv : h.Inv first) {r : FileRevisionRecord} (hr : h.Next first r) :
    (h.withRevision r).Inv first where
  start := hinv.start
  inodeIds := hinv.inodeIds
  revisionIds := by
    intro r' hr'
    change r'.revisionId ≤ h.revisionSequence + 1
    rcases List.mem_append.mp hr' with hold | hnew
    · obtain ⟨r₀, hr₀, hsame, -⟩ := mem_cleared hold
      have hle := hinv.revisionIds r₀ hr₀
      rw [hsame.1]
      omega
    · rw [List.mem_singleton.mp hnew, hr.revisionId]
  nodup := by
    apply nodup_append_fresh
    · rw [keys_cleared]
      exact hinv.nodup
    · intro r' hr'
      obtain ⟨r₀, hr₀, hsame, -⟩ := mem_cleared hr'
      have hle := hinv.revisionIds r₀ hr₀
      rw [hsame.1, hr.revisionId]
      omega
  parents := by
    have hthere : ∀ p, (∃ q ∈ h.revisions, q.revisionId = p) →
        ∃ q ∈ (h.withRevision r).revisions, q.revisionId = p := by
      rintro p ⟨q, hq, rfl⟩
      obtain ⟨q', hq', hsame⟩ := exists_cleared hq r.inodeId
      exact ⟨q', List.mem_append_left _ hq', hsame.1⟩
    intro r' hr' p hp
    rcases List.mem_append.mp hr' with hold | hnew
    · obtain ⟨r₀, hr₀, hsame, -⟩ := mem_cleared hold
      rw [hsame.2.2] at hp
      obtain ⟨hlt, hq⟩ := hinv.parents r₀ hr₀ p hp
      exact ⟨hsame.1 ▸ hlt, hthere p hq⟩
    · obtain rfl := List.mem_singleton.mp hnew
      obtain ⟨q, hq, rfl⟩ := hr.parent p hp
      have hle := hinv.revisionIds q hq
      refine ⟨?_, hthere _ ⟨q, hq, rfl⟩⟩
      rw [hr.revisionId]
      omega
  inodes := by
    intro r' hr'
    rcases List.mem_append.mp hr' with hold | hnew
    · obtain ⟨r₀, hr₀, hsame, -⟩ := mem_cleared hold
      rw [hsame.2.1]
      exact hinv.inodes r₀ hr₀
    · rw [List.mem_singleton.mp hnew]
      exact hr.inode
  current := by
    intro r' hr'
    by_cases hplace : r'.inodeId = r.inodeId
    · exact ⟨r, List.mem_append_right _ (List.mem_singleton_self r), hplace.symm, hr.isCurrent⟩
    · rcases List.mem_append.mp hr' with hold | hnew
      · obtain ⟨r₀, hr₀, hsame, -⟩ := mem_cleared hold
        obtain ⟨c, hc, hcInode, hcurrent⟩ := hinv.current r₀ hr₀
        have hne : c.inodeId ≠ r.inodeId := by
          rw [hcInode, ← hsame.2.1]
          exact hplace
        exact ⟨c, List.mem_append_left _ (mem_cleared_of_other hc hne), by
          rw [hcInode, hsame.2.1], hcurrent⟩
      · exact absurd (congrArg _ (List.mem_singleton.mp hnew)) hplace
  only := by
    have hold : ∀ c ∈ cleared r.inodeId h.revisions, c.isCurrent = true →
        c ∈ h.revisions ∧ c.inodeId ≠ r.inodeId := by
      intro c hc hcurrent
      obtain ⟨r₀, hr₀, hsame, hother, hcleared⟩ := mem_cleared hc
      by_cases hplace : r₀.inodeId = r.inodeId
      · rw [hcleared hplace] at hcurrent
        cases hcurrent
      · rw [hother hplace]
        exact ⟨hr₀, hplace⟩
    intro c hc c' hc' hsame hcurrent hcurrent'
    rcases List.mem_append.mp hc with hcOld | hcNew <;>
      rcases List.mem_append.mp hc' with hcOld' | hcNew'
    · exact hinv.only c (hold c hcOld hcurrent).1 c' (hold c' hcOld' hcurrent').1 hsame hcurrent
        hcurrent'
    · rw [List.mem_singleton.mp hcNew'] at hsame
      exact absurd hsame (hold c hcOld hcurrent).2
    · rw [List.mem_singleton.mp hcNew] at hsame
      exact absurd hsame.symm (hold c' hcOld' hcurrent').2
    · rw [List.mem_singleton.mp hcNew, List.mem_singleton.mp hcNew']
  copies := by
    intro r' hr' hne r'' hr'' hsame
    rcases List.mem_append.mp hr' with hold | hnew
    · obtain ⟨r₀, hr₀, hsame₀, hother, -⟩ := mem_cleared hold
      rcases List.mem_append.mp hr'' with hold' | hnew'
      · obtain ⟨r₁, hr₁, hsame₁, hother', -⟩ := mem_cleared hold'
        have heq : r₁ = r₀ := by
          apply hinv.copies r₀ hr₀ (hsame₀.2.1 ▸ hne) r₁ hr₁
          rw [← hsame₁.2.1, hsame, hsame₀.2.1]
        have hplace : r₀.inodeId ≠ r.inodeId := by
          rcases hr.place with hplace | hplace
          · rw [hsame₀.2.1] at hne
            omega
          · exact hplace r₀ hr₀
        rw [hother' (heq ▸ hplace), hother hplace, heq]
      · obtain rfl := List.mem_singleton.mp hnew'
        rcases hr.place with hplace | hplace
        · rw [hsame] at hplace
          exact absurd hne (Int.not_lt.mpr hplace)
        · exact absurd (hsame₀.2.1.symm.trans hsame.symm) (hplace r₀ hr₀)
    · obtain rfl := List.mem_singleton.mp hnew
      rcases hr.place with hplace | hplace
      · exact absurd hne (Int.not_lt.mpr hplace)
      · rcases List.mem_append.mp hr'' with hold' | hnew'
        · obtain ⟨r₁, hr₁, hsame₁, -⟩ := mem_cleared hold'
          exact absurd (hsame₁.2.1.symm.trans hsame) (hplace r₁ hr₁)
        · exact List.mem_singleton.mp hnew'
  refIds r' hr' := (hinv.refIds r' hr').trans (by change _ ≤ h.revisionSequence + 1; omega)
  conflictIds := hinv.conflictIds

theorem Grows.withRevision (hg : Grows first h h') {r : FileRevisionRecord}
    (hr : h'.Next first r) : Grows first h (h'.withRevision r) := by
  have hle := hg.sequence
  refine ⟨hg.inodeIds, ?_, ?_, ?_, hg.refs, hg.conflicts⟩
  · change h.revisionSequence ≤ h'.revisionSequence + 1
    omega
  · intro revisionId hid
    have hne : r.revisionId ≠ revisionId := by
      rw [hr.revisionId]
      omega
    change parentOf (cleared r.inodeId h'.revisions ++ [r]) revisionId = _
    rw [parentOf_append hne, cleared, parentOf_updateWhere]
    exact hg.parents revisionId hid
  · intro r' hr' hplace
    have hmem := hg.others r' hr' hplace
    refine List.mem_append_left _ (mem_cleared_of_other hmem ?_)
    rcases hr.place with hle | hother
    · omega
    · exact hother r' hmem

/-- More references. -/
def withRefs (rows : List ChunkRefRecord) (h : History) : History :=
  { h with refs := h.refs ++ rows }

theorem Inv.withRefs (hinv : h.Inv first) {rows : List ChunkRefRecord}
    (hrows : ∀ r ∈ rows, r.revisionId ≤ h.revisionSequence) : (h.withRefs rows).Inv first :=
  ⟨hinv.start, hinv.inodeIds, hinv.revisionIds, hinv.nodup, hinv.parents, hinv.inodes,
    hinv.current, hinv.only, hinv.copies,
    fun r hr => (List.mem_append.mp hr).elim (hinv.refIds r) (hrows r), hinv.conflictIds⟩

theorem refsOf_withRefs {rows : List ChunkRefRecord} {revisionId : ℤ}
    (hrows : ∀ r ∈ rows, r.revisionId ≠ revisionId) :
    (h.withRefs rows).refsOf revisionId = h.refsOf revisionId := by
  have hnone : rows.filter (·.revisionId = revisionId) = [] := by
    rw [List.filter_eq_nil_iff]
    exact fun r hr => by simpa using hrows r hr
  rw [refsOf, refsOf, History.withRefs, List.filter_append, hnone, List.append_nil]

theorem Grows.withRefs (hg : Grows first h h') {rows : List ChunkRefRecord}
    (hrows : ∀ r ∈ rows, h.revisionSequence < r.revisionId) :
    Grows first h (h'.withRefs rows) :=
  ⟨hg.inodeIds, hg.sequence, hg.parents, hg.others, fun revisionId hid =>
    (refsOf_withRefs fun r hr => by
      have hlt := hrows r hr
      omega).trans (hg.refs revisionId hid), hg.conflicts⟩

/-- A new event. -/
def withConflict (e : ConflictEventRecord) (h : History) : History :=
  { h with conflicts := h.conflicts ++ [e], conflictSequence := h.conflictSequence + 1 }

theorem Inv.withConflict (hinv : h.Inv first) {e : ConflictEventRecord}
    (he : e.conflictId = h.conflictSequence + 1) : (h.withConflict e).Inv first := by
  refine ⟨hinv.start, hinv.inodeIds, hinv.revisionIds, hinv.nodup, hinv.parents, hinv.inodes,
    hinv.current, hinv.only, hinv.copies, hinv.refIds, ?_⟩
  intro e' he'
  change e'.conflictId ≤ h.conflictSequence + 1
  rcases List.mem_append.mp he' with hold | hnew
  · exact (hinv.conflictIds e' hold).trans (by omega)
  · rw [List.mem_singleton.mp hnew, he]

theorem Grows.withConflict (hg : Grows first h h') (e : ConflictEventRecord) :
    Grows first h (h'.withConflict e) :=
  ⟨hg.inodeIds, hg.sequence, hg.parents, hg.others, hg.refs,
    fun e' he' => List.mem_append_left _ (hg.conflicts e' he')⟩

/-- Another revision of an inode becomes the current one. -/
def withCurrent (r : FileRevisionRecord) (h : History) : History :=
  { h with
    revisions := updateWhere (·.revisionId = r.revisionId) (fun r => { r with isCurrent := true })
      (cleared r.inodeId h.revisions) }

/-- What becomes of a revision. -/
def promotedRow (r r₀ : FileRevisionRecord) : FileRevisionRecord :=
  if r₀.inodeId = r.inodeId then { r₀ with isCurrent := decide (r₀.revisionId = r.revisionId) }
  else r₀

theorem sameRow_promotedRow (r r₀ : FileRevisionRecord) : SameRow r₀ (promotedRow r r₀) := by
  unfold promotedRow
  split
  · exact ⟨rfl, rfl, rfl⟩
  · exact ⟨rfl, rfl, rfl⟩

theorem mem_withCurrent (hinv : h.Inv first) {r r' : FileRevisionRecord} (hr : r ∈ h.revisions) :
    r' ∈ (h.withCurrent r).revisions ↔ ∃ r₀ ∈ h.revisions, promotedRow r r₀ = r' := by
  have hrow : ∀ r₀ ∈ h.revisions, r₀.revisionId = r.revisionId → r₀ = r := by
    intro r₀ hr₀ heq
    have hfind := find?_of_mem hinv hr₀
    rw [heq, find?_of_mem hinv hr] at hfind
    exact (Option.some.inj hfind).symm
  have hstep : ∀ r₀ ∈ h.revisions,
      (let cleared := if r₀.inodeId = r.inodeId then { r₀ with isCurrent := false } else r₀
        if cleared.revisionId = r.revisionId then { cleared with isCurrent := true }
        else cleared) = promotedRow r r₀ := by
    intro r₀ hr₀
    unfold promotedRow
    by_cases hplace : r₀.inodeId = r.inodeId
    · by_cases hkey : r₀.revisionId = r.revisionId
      · simp [hplace, hkey]
      · simp [hplace, hkey]
    · have hkey : r₀.revisionId ≠ r.revisionId := fun heq => hplace (by rw [hrow r₀ hr₀ heq])
      simp [hplace, hkey]
  constructor
  · intro hr'
    obtain ⟨r₁, hr₁, rfl⟩ := mem_updateWhere.mp hr'
    obtain ⟨r₀, hr₀, rfl⟩ := mem_updateWhere.mp hr₁
    refine ⟨r₀, hr₀, ?_⟩
    rw [← hstep r₀ hr₀]
    simp only [decide_eq_true_eq]
  · rintro ⟨r₀, hr₀, rfl⟩
    refine mem_updateWhere.mpr ⟨_, mem_updateWhere.mpr ⟨r₀, hr₀, rfl⟩, ?_⟩
    rw [← hstep r₀ hr₀]
    simp only [decide_eq_true_eq]

/-- A promoted revision is the only current one of its inode. -/
theorem isCurrent_promotedRow (hinv : h.Inv first) {r r₀ : FileRevisionRecord}
    (hr : r ∈ h.revisions) (hr₀ : r₀ ∈ h.revisions) (hplace : r₀.inodeId = r.inodeId) :
    (promotedRow r r₀).isCurrent = true ↔ r₀ = r := by
  rw [promotedRow, if_pos hplace]
  constructor
  · intro hkey
    have hfind := find?_of_mem hinv hr₀
    rw [of_decide_eq_true hkey, find?_of_mem hinv hr] at hfind
    exact (Option.some.inj hfind).symm
  · rintro rfl
    exact decide_eq_true rfl

theorem promotedRow_of_other {r r₀ : FileRevisionRecord} (hplace : r₀.inodeId ≠ r.inodeId) :
    promotedRow r r₀ = r₀ := if_neg hplace

theorem Inv.withCurrent (hinv : h.Inv first) {r : FileRevisionRecord} (hr : r ∈ h.revisions) :
    (h.withCurrent r).Inv first := by
  have hmem : ∀ r₀ ∈ h.revisions, promotedRow r r₀ ∈ (h.withCurrent r).revisions :=
    fun r₀ hr₀ => (mem_withCurrent hinv hr).mpr ⟨r₀, hr₀, rfl⟩
  refine ⟨hinv.start, hinv.inodeIds, ?_, ?_, ?_, ?_, ?_, ?_, ?_, hinv.refIds, hinv.conflictIds⟩
  · intro r' hr'
    obtain ⟨r₀, hr₀, rfl⟩ := (mem_withCurrent hinv hr).mp hr'
    rw [(sameRow_promotedRow r r₀).1]
    exact hinv.revisionIds r₀ hr₀
  · have hkeys : (h.withCurrent r).revisions.map (·.revisionId) =
        (cleared r.inodeId h.revisions).map (·.revisionId) := by
      apply map_updateWhere
      intro r
      rfl
    rw [hkeys, keys_cleared]
    exact hinv.nodup
  · intro r' hr' p hp
    obtain ⟨r₀, hr₀, rfl⟩ := (mem_withCurrent hinv hr).mp hr'
    obtain ⟨hid, -, hparent⟩ := sameRow_promotedRow r r₀
    rw [hparent] at hp
    obtain ⟨hlt, q, hq, rfl⟩ := hinv.parents r₀ hr₀ p hp
    exact ⟨hid ▸ hlt, _, hmem q hq, (sameRow_promotedRow r q).1⟩
  · intro r' hr'
    obtain ⟨r₀, hr₀, rfl⟩ := (mem_withCurrent hinv hr).mp hr'
    rw [(sameRow_promotedRow r r₀).2.1]
    exact hinv.inodes r₀ hr₀
  · intro r' hr'
    obtain ⟨r₀, hr₀, rfl⟩ := (mem_withCurrent hinv hr).mp hr'
    rw [(sameRow_promotedRow r r₀).2.1]
    by_cases hplace : r₀.inodeId = r.inodeId
    · exact ⟨_, hmem r hr, (sameRow_promotedRow r r).2.1.trans hplace.symm,
        (isCurrent_promotedRow hinv hr hr rfl).mpr rfl⟩
    · obtain ⟨c, hc, hcInode, hcurrent⟩ := hinv.current r₀ hr₀
      have hrow := promotedRow_of_other (hcInode ▸ hplace)
      exact ⟨c, hrow ▸ hmem c hc, hcInode, hcurrent⟩
  · intro c hc c' hc' hsame hcurrent hcurrent'
    obtain ⟨r₀, hr₀, rfl⟩ := (mem_withCurrent hinv hr).mp hc
    obtain ⟨r₁, hr₁, rfl⟩ := (mem_withCurrent hinv hr).mp hc'
    rw [(sameRow_promotedRow r r₀).2.1, (sameRow_promotedRow r r₁).2.1] at hsame
    by_cases hplace : r₀.inodeId = r.inodeId
    · rw [(isCurrent_promotedRow hinv hr hr₀ hplace).mp hcurrent,
        (isCurrent_promotedRow hinv hr hr₁ (hsame ▸ hplace)).mp hcurrent']
    · have hplace' : r₁.inodeId ≠ r.inodeId := hsame ▸ hplace
      rw [promotedRow_of_other hplace] at hcurrent ⊢
      rw [promotedRow_of_other hplace'] at hcurrent' ⊢
      exact hinv.only r₀ hr₀ r₁ hr₁ hsame hcurrent hcurrent'
  · intro r' hr' hne r'' hr'' hsame
    obtain ⟨r₀, hr₀, rfl⟩ := (mem_withCurrent hinv hr).mp hr'
    obtain ⟨r₁, hr₁, rfl⟩ := (mem_withCurrent hinv hr).mp hr''
    rw [(sameRow_promotedRow r r₀).2.1] at hne hsame
    rw [(sameRow_promotedRow r r₁).2.1] at hsame
    rw [hinv.copies r₀ hr₀ hne r₁ hr₁ hsame]

/-- The only revision of a copy stays current. -/
theorem Grows.withCurrent (hinv : h.Inv first) {r : FileRevisionRecord} (hr : r ∈ h.revisions) :
    Grows first h (h.withCurrent r) := by
  refine ⟨fun _ hi => hi, le_rfl, fun revisionId _ => ?_, fun r₀ hr₀ hne => ?_, fun _ _ => rfl,
    fun _ he => he⟩
  · change parentOf (updateWhere _ _ (cleared _ _)) revisionId = _
    rw [parentOf_updateWhere, cleared, parentOf_updateWhere]
  · refine (mem_withCurrent hinv hr).mpr ⟨r₀, hr₀, ?_⟩
    by_cases hplace : r₀.inodeId = r.inodeId
    · -- the revision of a copy is current, as its inode has no other
      have heq := hinv.copies r₀ hr₀ hne r hr hplace.symm
      obtain ⟨c, hc, hcInode, hcurrent⟩ := hinv.current r₀ hr₀
      rw [hinv.copies r₀ hr₀ hne c hc hcInode] at hcurrent
      rw [promotedRow, if_pos hplace, heq, decide_eq_true rfl, ← hcurrent]
    · exact promotedRow_of_other hplace

/-! ### Copies -/

/-- A copy of a revision is the current revision of an inode of its own, and an event links the
two. -/
def Kept (first : ℤ) (h : History) (replaced : ℤ) : Prop :=
  ∃ copy ∈ h.revisions, copy.inodeId ∈ h.inodeIds ∧ first < copy.inodeId ∧
    copy.isCurrent = true ∧
    (h.refsOf copy.revisionId).map content = (h.refsOf replaced).map content ∧
    ∃ e ∈ h.conflicts, e.winningRevisionId = replaced ∧ e.losingRevisionId = copy.revisionId ∧
      e.materializedInodeId = some copy.inodeId ∧ e.materializedRevisionId = some copy.revisionId

/-- A copy is there for good. -/
theorem Kept.mono {replaced : ℤ} (hkept : Kept first h replaced) (hinv : h.Inv first)
    (hg : Grows first h h') (hreplaced : replaced ≤ h.revisionSequence) :
    Kept first h' replaced := by
  obtain ⟨copy, hcopy, hinode, hne, hcurrent, hrefs, e, he, hlinks⟩ := hkept
  refine ⟨copy, hg.others copy hcopy hne, hg.inodeIds _ hinode, hne, hcurrent, ?_, e,
    hg.conflicts e he, hlinks⟩
  rw [hg.refs _ (hinv.revisionIds copy hcopy), hg.refs _ hreplaced, hrefs]

/-- What becomes of a history when a revision is copied beside its inode. -/
def withCopy (copy : FileRevisionRecord) (rows : List ChunkRefRecord) (e : ConflictEventRecord)
    (h : History) : History :=
  (((h.withInode.withRevision copy).withRefs rows).withConflict e)

theorem withCopy_kept (hinv : h.Inv first) {source : FileRevisionRecord}
    (copy : FileRevisionRecord) (hsource : source ∈ h.revisions)
    (hid : copy.revisionId = h.revisionSequence + 1)
    (hinode : copy.inodeId = h.inodeSequence + 1) (hcurrent : copy.isCurrent = true)
    (hparent : copy.parentRevisionId = some source.revisionId) {rows : List ChunkRefRecord}
    (hrows : ∀ r ∈ rows, r.revisionId = copy.revisionId)
    (hcontent : rows.map content = (h.refsOf source.revisionId).map content)
    (e : ConflictEventRecord) (hevent : e.conflictId = h.conflictSequence + 1)
    (hlinks : e.winningRevisionId = source.revisionId ∧ e.losingRevisionId = copy.revisionId ∧
      e.materializedInodeId = some copy.inodeId ∧
        e.materializedRevisionId = some copy.revisionId) :
    (h.withCopy copy rows e).Inv first ∧ Grows first h (h.withCopy copy rows e) ∧
      Kept first (h.withCopy copy rows e) source.revisionId := by
  have hfresh : ∀ i ∈ h.inodeIds, i ≠ copy.inodeId := by
    intro i hi
    have hle := hinv.inodeIds i hi
    omega
  have hnext : h.withInode.Next first copy := by
    refine ⟨hid, ?_, .inr fun r hr => hfresh _ (hinv.inodes r hr), hcurrent, ?_⟩
    · rw [hinode]
      exact List.mem_append_right _ (List.mem_singleton_self _)
    · intro p hp
      rw [hparent] at hp
      exact ⟨source, hsource, Option.some.inj hp⟩
  have hle : ∀ r ∈ rows, r.revisionId ≤ (h.withInode.withRevision copy).revisionSequence := by
    intro r hr
    rw [hrows r hr, hid]
    exact le_rfl
  have hlt : ∀ r ∈ rows, h.revisionSequence < r.revisionId := by
    intro r hr
    rw [hrows r hr, hid]
    omega
  have hgrown : Grows first h (h.withCopy copy rows e) :=
    ((((Grows.refl first h).withInode).withRevision hnext).withRefs hlt).withConflict e
  refine ⟨((hinv.withInode.withRevision hnext).withRefs hle).withConflict hevent, hgrown, copy,
    List.mem_append_right _ (List.mem_singleton_self copy), hnext.inode,
    hinode ▸ Int.lt_add_one_of_le hinv.start, hcurrent, ?_, e,
    List.mem_append_right _ (List.mem_singleton_self e), hlinks⟩
  rw [hgrown.refs _ (hinv.revisionIds source hsource), ← hcontent]
  have hown : (h.refs ++ rows).filter (·.revisionId = copy.revisionId) = rows := by
    have hold : h.refs.filter (·.revisionId = copy.revisionId) = [] := by
      rw [List.filter_eq_nil_iff]
      intro r hr
      have hle := hinv.refIds r hr
      simp only [decide_eq_true_eq]
      omega
    rw [List.filter_append, hold, List.nil_append, List.filter_eq_self]
    exact fun r hr => decide_eq_true (hrows r hr)
  have hsorted : rows.Pairwise fun a b => a.fileOffset ≤ b.fileOffset := by
    have hsource : ((h.refsOf source.revisionId).map content).Pairwise fun a b => a.2.1 ≤ b.2.1 :=
      List.pairwise_map.mpr (pairwise_orderBy _ _)
    rw [← hcontent, List.pairwise_map] at hsource
    exact hsource
  change (orderBy _ ((h.refs ++ rows).filter _)).map content = _
  rw [hown, orderBy_eq_self hsorted]

end History

end OmniDrive
