import OmniDrive.Storage.Projection

/-!
# The paths of the projection

The listing and the lookup of one inode against what the sync root needs of them: different files
at different paths, prefixes taken off at the end of a component, the same path from both, and none
for a file that has been deleted.
-/

namespace OmniDrive

open BasePaths Tables

namespace InodeTree

variable (tree : InodeTree)

/-- The full path of an inode below its root. -/
def HasPath (inode : InodeRecord) (full : String) : Prop :=
  ∃ n, Descent.Reaches (·.id) (·.parentId) (·.name) (fun path child => path ++ "/" ++ child.name)
    tree.inodes n inode full

/-- The inode has a current revision. -/
def HasCurrent (inode : InodeRecord) : Prop :=
  ∃ r ∈ tree.revisions, r.inodeId = inode.id ∧ r.isCurrent = true

/-- A live file with a current revision, and its full path. -/
def IsLive (inodeId : ℤ) (full : String) : Prop :=
  ∃ i ∈ tree.inodes, i.id = inodeId ∧ i.kind = "FILE" ∧ i.deletedAt = none ∧ tree.HasPath i full ∧
    tree.HasCurrent i

variable {tree}

theorem mem_inodePaths {i : InodeRecord} {full : String} :
    (i, full) ∈ inodePaths tree.inodes ↔ tree.HasPath i full :=
  Descent.mem_descend tree.id_nodup

theorem HasPath.mem {i : InodeRecord} {full : String} (h : tree.HasPath i full) :
    i ∈ tree.inodes := h.choose_spec.mem

theorem HasPath.unique {i i' : InodeRecord} {full full' : String} (h : tree.HasPath i full)
    (h' : tree.HasPath i' full') (hid : i.id = i'.id) : full = full' := by
  obtain ⟨n, h⟩ := h
  obtain ⟨m, h'⟩ := h'
  exact (h.unique tree.id_nodup h' hid).2

theorem IsLive.unique {inodeId : ℤ} {full full' : String} (h : tree.IsLive inodeId full)
    (h' : tree.IsLive inodeId full') : full = full' := by
  obtain ⟨i, -, hid, -, -, hpath, -⟩ := h
  obtain ⟨i', -, hid', -, -, hpath', -⟩ := h'
  exact hpath.unique hpath' (hid.trans hid'.symm)

theorem mem_projectionRows {keeps : InodeRecord → Bool} {record : ProjectionFileRecord} :
    record ∈ tree.projectionRows keeps ↔
      ∃ i, i.kind = "FILE" ∧ keeps i = true ∧ tree.HasPath i record.path ∧
        ∃ r ∈ tree.revisions, r.inodeId = i.id ∧ r.isCurrent = true ∧
          record = ⟨i.id, record.path, r.revisionId, r.size, r.createdAt⟩ := by
  simp only [projectionRows, List.mem_flatMap, List.mem_filter, List.mem_map, Bool.and_eq_true,
    decide_eq_true_eq]
  constructor
  · rintro ⟨i, ⟨hmem, hkind, hkeeps⟩, ⟨i', full⟩, ⟨hpath, hid⟩, r, ⟨hr, hinode, hcurrent⟩, rfl⟩
    have hrow := mem_inodePaths.mp hpath
    obtain rfl := List.inj_on_of_nodup_map tree.id_nodup hrow.mem hmem hid
    exact ⟨i', hkind, hkeeps, hrow, r, hr, hinode, hcurrent, rfl⟩
  · rintro ⟨i, hkind, hkeeps, hpath, r, hr, hinode, hcurrent, hrecord⟩
    exact ⟨i, ⟨hpath.mem, hkind, hkeeps⟩, (i, record.path), ⟨mem_inodePaths.mpr hpath, rfl⟩, r,
      ⟨hr, hinode, hcurrent⟩, hrecord.symm⟩

end InodeTree

section Results

variable {tree : InodeTree} {policies : List SyncPolicyRow} {watchDir : Option String}

/-- The listing has the live files, at the relative paths of their full paths. -/
theorem mem_getActiveFilesForProjection {inodeId : ℤ} {path : String} :
    (∃ file ∈ getActiveFilesForProjection tree policies watchDir,
      file.inodeId = inodeId ∧ file.path = path) ↔
      ∃ full, tree.IsLive inodeId full ∧
        path = projectionRelativePath full (projectionBases policies watchDir) := by
  simp only [getActiveFilesForProjection, List.mem_map, mem_orderBy, InodeTree.mem_projectionRows,
    Option.isNone_iff_eq_none]
  constructor
  · rintro ⟨file, ⟨record, ⟨i, hkind, hlive, hpath, r, hr, hinode, hcurrent, hrecord⟩, hfile⟩, hid,
      hrel⟩
    rw [← hfile, ProjectionFileRecord.projected_inodeId, hrecord] at hid
    rw [← hfile, ProjectionFileRecord.projected_path] at hrel
    exact ⟨record.path, ⟨i, hpath.mem, hid, hkind, hlive, hpath, r, hr, hinode, hcurrent⟩,
      hrel.symm⟩
  · rintro ⟨full, ⟨i, hmem, hid, hkind, hlive, hpath, r, hr, hinode, hcurrent⟩, hrel⟩
    exact ⟨_, ⟨⟨i.id, full, r.revisionId, r.size, r.createdAt⟩,
      ⟨i, hkind, hlive, hpath, r, hr, hinode, hcurrent, rfl⟩, rfl⟩, hid, hrel.symm⟩

theorem getLast?_limit_one {R : Type} (rows : List R) : (limit 1 rows).getLast? = rows.head? := by
  cases rows <;> rfl

/-- The lookup has a path for the files with a current revision, deleted or not. -/
theorem getActiveFileForProjectionByInode_eq_none_iff {inodeId : ℤ} :
    getActiveFileForProjectionByInode tree policies watchDir inodeId = none ↔
      ∀ i full, i.id = inodeId → i.kind = "FILE" → tree.HasPath i full → ¬ tree.HasCurrent i := by
  rw [getActiveFileForProjectionByInode, getLast?_limit_one, Option.map_eq_none_iff,
    List.head?_eq_none_iff, List.eq_nil_iff_forall_not_mem]
  simp only [InodeTree.mem_projectionRows, decide_eq_true_eq]
  constructor
  · rintro h i full hid hkind hpath ⟨r, hr, hinode, hcurrent⟩
    exact h ⟨i.id, full, r.revisionId, r.size, r.createdAt⟩
      ⟨i, hkind, hid, hpath, r, hr, hinode, hcurrent, rfl⟩
  · rintro h record ⟨i, hkind, hid, hpath, r, hr, hinode, hcurrent, -⟩
    exact h i record.path hid hkind hpath ⟨r, hr, hinode, hcurrent⟩

/-- What the lookup has is the relative path of the full path. -/
theorem of_getActiveFileForProjectionByInode {inodeId : ℤ} {found : ProjectionFileRecord}
    (h : getActiveFileForProjectionByInode tree policies watchDir inodeId = some found) :
    ∃ i full, i.id = inodeId ∧ tree.HasPath i full ∧
      found.path = projectionRelativePath full (projectionBases policies watchDir) := by
  rw [getActiveFileForProjectionByInode, getLast?_limit_one, Option.map_eq_some_iff] at h
  obtain ⟨record, hhead, hfound⟩ := h
  obtain ⟨i, -, hid, hpath, -⟩ := InodeTree.mem_projectionRows.mp (List.mem_of_head? hhead)
  refine ⟨i, record.path, of_decide_eq_true hid, hpath, ?_⟩
  rw [← hfound, ProjectionFileRecord.projected_path]

end Results

/-! ## What is asked of the projection -/

/-- A file lies under a prefix if what it gets is what follows the prefix in its path. -/
def LiesUnder (head : List Char) (full relative : String) : Prop :=
  IsHead '/' head (projectionCandidate full) ∧
    restBehind '/' head (projectionCandidate full) = relative.toList

/-- Different files get different paths, a file lies under a prefix only if it ends with a
component, the lookup agrees with the listing, and neither has a deleted or missing file. -/
structure ProjectsSoundly (tree : InodeTree) (policies : List SyncPolicyRow)
    (watchDir : Option String) : Prop where
  injective : ∀ a ∈ getActiveFilesForProjection tree policies watchDir,
    ∀ b ∈ getActiveFilesForProjection tree policies watchDir,
      a.path = b.path → a.inodeId = b.inodeId
  wholeComponents : ∀ file ∈ getActiveFilesForProjection tree policies watchDir,
    ∀ full, tree.IsLive file.inodeId full →
      ∀ base ∈ projectionBases policies watchDir, ∀ head ∈ baseHeads base,
        LiesUnder head full file.path → EndsAt '/' head (projectionCandidate full)
  sameByInode : ∀ file ∈ getActiveFilesForProjection tree policies watchDir,
    ∃ found, getActiveFileForProjectionByInode tree policies watchDir file.inodeId = some found ∧
      found.path = file.path
  absent : ∀ inodeId, (∀ i ∈ tree.inodes, i.id = inodeId → i.deletedAt ≠ none) →
    getActiveFileForProjectionByInode tree policies watchDir inodeId = none ∧
      ∀ file ∈ getActiveFilesForProjection tree policies watchDir, file.inodeId ≠ inodeId

/-- No deleted file has a current revision, what is taken off the path of a live file ends with a
component, and no path is another one with what is taken off them exchanged. -/
structure ProjectsApart (tree : InodeTree) (basePaths : List String) : Prop where
  deleted : ∀ i full, i.kind = "FILE" → i.deletedAt ≠ none → tree.HasPath i full →
    ¬ tree.HasCurrent i
  wholeComponents : ∀ inodeId full head, tree.IsLive inodeId full → TakesOff basePaths full head →
    EndsAt '/' head (projectionCandidate full)
  notExchanged : ∀ inodeId inodeId' full full' head head', inodeId ≠ inodeId' →
    tree.IsLive inodeId full → tree.IsLive inodeId' full' →
      TakesOff basePaths full head → TakesOff basePaths full' head' →
        ¬ Exchanged '/' head (projectionCandidate full) head' (projectionCandidate full')

section Soundness

variable {tree : InodeTree} {policies : List SyncPolicyRow} {watchDir : Option String}

/-- The path of a file that is listed. -/
theorem exists_isLive {file : ProjectionFileRecord}
    (h : file ∈ getActiveFilesForProjection tree policies watchDir) :
    ∃ full, tree.IsLive file.inodeId full ∧
      file.path = projectionRelativePath full (projectionBases policies watchDir) :=
  mem_getActiveFilesForProjection.mp ⟨file, h, rfl, rfl⟩

theorem TakesOff.isPrefix {basePaths : List String} {path : String} {head : List Char}
    (h : TakesOff basePaths path head) : head <+: projectionCandidate path := by
  by_cases hcolon : ':' ∈ (projectionNormalized path).toList
  · exact (h.1 hcolon).2.1.1
  · rw [h.2 hcolon]
    exact List.prefix_append ['/'] _

theorem TakesOff.rest {basePaths : List String} {path : String} {head : List Char}
    (h : TakesOff basePaths path head) :
    (projectionRelativePath path basePaths).toList = restBehind '/' head (projectionCandidate path) := by
  obtain ⟨other, hother, hrest⟩ := exists_takesOff basePaths path
  rw [h.unique hother, hrest]

/-- The slash in front is taken off at the end of a component. -/
theorem endsAt_slash (path : String) : EndsAt '/' ['/'] (projectionCandidate path) := .inl rfl

/-- Two heads before the same rest end with a component or not together. -/
theorem endsAt_of_rest {path : String} {head other : List Char}
    (h : IsHead '/' head (projectionCandidate path)) (hother : other <+: projectionCandidate path)
    (hsame : restBehind '/' head (projectionCandidate path) =
      restBehind '/' other (projectionCandidate path))
    (hends : EndsAt '/' other (projectionCandidate path)) :
    EndsAt '/' head (projectionCandidate path) := by
  have hotherHead : IsHead '/' other (projectionCandidate path) := ⟨hother, hsame ▸ h.2⟩
  rw [endsAt_iff h, hsame]
  exact (endsAt_iff hotherHead).mp hends

theorem ProjectsApart.sound (h : ProjectsApart tree (projectionBases policies watchDir)) :
    ProjectsSoundly tree policies watchDir := by
  constructor
  · intro a ha b hb hpath
    by_contra hne
    obtain ⟨full, hlive, hrel⟩ := exists_isLive ha
    obtain ⟨full', hlive', hrel'⟩ := exists_isLive hb
    obtain ⟨head, htakes, hrest⟩ := exists_takesOff (projectionBases policies watchDir) full
    obtain ⟨head', htakes', hrest'⟩ := exists_takesOff (projectionBases policies watchDir) full'
    apply h.notExchanged _ _ _ _ _ _ hne hlive hlive' htakes htakes'
    rw [exchanged_iff htakes.isPrefix htakes'.isPrefix, ← hrest, ← hrest', ← hrel, ← hrel', hpath]
  · intro file hfile full hlive base _ head _ ⟨hhead, hunder⟩
    obtain ⟨full', hlive', hrel⟩ := exists_isLive hfile
    obtain rfl := hlive.unique hlive'
    obtain ⟨other, htakes, hrest⟩ := exists_takesOff (projectionBases policies watchDir) full
    apply endsAt_of_rest hhead htakes.isPrefix _ (h.wholeComponents _ _ _ hlive htakes)
    rw [hunder, hrel, hrest]
  · intro file hfile
    obtain ⟨full, hlive, hrel⟩ := exists_isLive hfile
    obtain ⟨i, -, hid, hkind, -, hpath, hcurrent⟩ := hlive
    cases hfound : getActiveFileForProjectionByInode tree policies watchDir file.inodeId with
    | none =>
      exact absurd hcurrent
        (getActiveFileForProjectionByInode_eq_none_iff.mp hfound i full hid hkind hpath)
    | some found =>
      obtain ⟨i', full', hid', hpath', hrel'⟩ := of_getActiveFileForProjectionByInode hfound
      refine ⟨found, rfl, ?_⟩
      rw [hrel, hrel', hpath.unique hpath' (hid.trans hid'.symm)]
  · intro inodeId hdeleted
    constructor
    · rw [getActiveFileForProjectionByInode_eq_none_iff]
      intro i full hid hkind hpath
      exact h.deleted i full hkind (hdeleted i hpath.mem hid) hpath
    · intro file hfile hid
      obtain ⟨full, ⟨i, hmem, hid', -, hlive, -⟩, -⟩ := exists_isLive hfile
      exact hdeleted i hmem (hid'.trans hid) hlive

theorem ProjectsSoundly.apart (h : ProjectsSoundly tree policies watchDir) :
    ProjectsApart tree (projectionBases policies watchDir) := by
  constructor
  · intro i full hkind hdeleted hpath
    have hnone := (h.absent i.id ?_).1
    · exact getActiveFileForProjectionByInode_eq_none_iff.mp hnone i full rfl hkind hpath
    · intro i' hmem hid
      rwa [List.inj_on_of_nodup_map tree.id_nodup hmem hpath.mem hid]
  · intro inodeId full head hlive htakes
    obtain ⟨file, hfile, hid, hrel⟩ := mem_getActiveFilesForProjection.mpr
      ⟨full, hlive, (rfl : _ = projectionRelativePath full (projectionBases policies watchDir))⟩
    by_cases hcolon : ':' ∈ (projectionNormalized full).toList
    · obtain ⟨hmem, hhead, -⟩ := htakes.1 hcolon
      rcases List.mem_cons.mp hmem with heq | hmem
      · rw [heq]
        exact endsAt_slash full
      · obtain ⟨base, hbase, hmem⟩ := List.mem_flatMap.mp hmem
        refine h.wholeComponents file hfile full (hid ▸ hlive) base hbase head hmem ⟨hhead, ?_⟩
        rw [hrel, htakes.rest]
    · rw [htakes.2 hcolon]
      exact endsAt_slash full
  · intro inodeId inodeId' full full' head head' hne hlive hlive' htakes htakes' hexchanged
    obtain ⟨a, ha, hid, hrel⟩ := mem_getActiveFilesForProjection.mpr
      ⟨full, hlive, (rfl : _ = projectionRelativePath full (projectionBases policies watchDir))⟩
    obtain ⟨b, hb, hid', hrel'⟩ := mem_getActiveFilesForProjection.mpr
      ⟨full', hlive', (rfl : _ = projectionRelativePath full' (projectionBases policies watchDir))⟩
    rw [exchanged_iff htakes.isPrefix htakes'.isPrefix, ← htakes.rest, ← htakes'.rest,
      String.toList_inj] at hexchanged
    apply hne
    rw [← hid, ← hid']
    exact h.injective a ha b hb (hrel.trans (hexchanged.trans hrel'.symm))

/-- The projection is sound exactly where its paths are apart. -/
theorem projectsSoundly_iff (tree : InodeTree) (policies : List SyncPolicyRow)
    (watchDir : Option String) :
    ProjectsSoundly tree policies watchDir ↔
      ProjectsApart tree (projectionBases policies watchDir) :=
  ⟨ProjectsSoundly.apart, ProjectsApart.sound⟩

end Soundness

/-- A row of the tree. -/
def treeRow (id : ℤ) (parentId : Option ℤ) (name kind : String) (deletedAt : Option ℤ) :
    InodeRecord :=
  { id, parentId, name, kind, size := 1, deletedAt }

/-- The current revision of a file. -/
def currentRow (revisionId inodeId : ℤ) : FileRevisionRecord where
  revisionId := revisionId
  inodeId := inodeId
  createdAt := 0
  size := 1
  isCurrent := true
  immutableUntil := none
  deviceId := none
  parentRevisionId := none
  origin := "LOCAL"
  conflictReason := none

/-- The files `C:/a/b/x`, `C:/ab/x` and, deleted, `C:/ab/old`. -/
def lookalikes : InodeTree where
  inodes := [treeRow 1 none "C:" "DIR" none, treeRow 2 (some 1) "a" "DIR" none,
    treeRow 3 (some 1) "ab" "DIR" none, treeRow 4 (some 2) "b" "DIR" none,
    treeRow 5 (some 4) "x" "FILE" none, treeRow 6 (some 3) "x" "FILE" none,
    treeRow 7 (some 3) "old" "FILE" (some 9)]
  revisions := [currentRow 1 5, currentRow 2 6, currentRow 3 7]
  id_nodup := by decide
  namesUnique := by unfold NamesUnique; decide
  liveNamesUnique := by unfold LiveNamesUnique; decide

/-- Under a policy of `C:/a`, both live files get the path `b/x`. -/
theorem lookalikes_collide : ¬ ProjectsSoundly lookalikes [policyRow 1 "C:/a" "LOCAL"] none := by
  intro h
  have hlisted : getActiveFilesForProjection lookalikes [policyRow 1 "C:/a" "LOCAL"] none =
      [⟨5, "b/x", 1, 1, 0⟩, ⟨6, "b/x", 2, 1, 0⟩] := by decide +kernel
  have hsame := h.injective ⟨5, "b/x", 1, 1, 0⟩ (by rw [hlisted]; exact List.mem_cons_self)
    ⟨6, "b/x", 2, 1, 0⟩
    (by rw [hlisted]; exact List.mem_cons_of_mem _ List.mem_cons_self) rfl
  exact absurd hsame (by decide)

end OmniDrive
