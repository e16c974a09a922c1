import OmniDrive.Library.Descent
import OmniDrive.Storage.Policies

/-!
# Projection into the sync root

Every live file with a current revision is projected at a relative path: its full path in the tree
of inodes, without the longest of the policy prefixes and the watch directory that it starts with.
-/

namespace OmniDrive

open BasePaths Tables

/-! ## The tables -/

/-- No two live rows have the same parent, or none, and the same name. -/
def LiveNamesUnique (inodes : List InodeRecord) : Prop :=
  inodes.Pairwise fun a b => a.deletedAt = none → b.deletedAt = none → a.parentId = b.parentId →
    a.name ≠ b.name

/-- No two rows have the same parent and the same name. -/
def NamesUnique (inodes : List InodeRecord) : Prop :=
  inodes.Pairwise fun a b => a.parentId ≠ none → a.parentId = b.parentId → a.name ≠ b.name

/-- The tables `inodes` and `file_revisions`, with the keys of the first. -/
structure InodeTree where
  inodes : List InodeRecord
  revisions : List FileRevisionRecord
  id_nodup : (inodes.map (·.id)).Nodup
  namesUnique : NamesUnique inodes
  liveNamesUnique : LiveNamesUnique inodes

structure ProjectionFileRecord where
  inodeId : ℤ
  path : String
  revisionId : ℤ
  size : ℤ
  createdAt : ℤ
  deriving DecidableEq, Repr

/-! ## The relative path -/

/-- `str::trim_start_matches` of one character. -/
def trimStartMatches (c : Char) (text : String) : String :=
  String.ofList (text.toList.dropWhile (· = c))

/-- The path as the bases are compared with it, but for the slash in front. -/
@[irreducible] def projectionNormalized (path : String) : String :=
  trimStartMatches '/' (Backup.trim (slashed path))

/-- Take a head off the candidate if it is longer than the best before. -/
def matchHead (candidate : String) (best : ℕ × String) (head : String) : ℕ × String :=
  match candidate.toList.dropPrefix? head.toList with
  | none => best
  | some stripped =>
    let stripped := trimStartMatches '\\' (trimStartMatches '/' (String.ofList stripped))
    if stripped ≠ "" ∧ head.utf8ByteSize > best.1 then (head.utf8ByteSize, slashed stripped)
    else best

/-- A base counts as it is and with a slash in front. -/
def matchBase (candidate : String) (best : ℕ × String) (base : String) : ℕ × String :=
  let baseNormalized := normalizePolicyPath base
  if baseNormalized = "" then best
  else [baseNormalized, "/" ++ baseNormalized].foldl (matchHead candidate) best

def projectionRelativePath (path : String) (basePaths : List String) : String :=
  let normalized := projectionNormalized path
  if ':' ∉ normalized.toList then normalized
  else (basePaths.foldl (matchBase ("/" ++ normalized)) (0, normalized)).2

/-! ## The queries -/

/-- The recursive table `inode_paths`. -/
def inodePaths (inodes : List InodeRecord) : List (InodeRecord × String) :=
  Descent.descend (·.id) (·.parentId) (·.name) (fun path child => path ++ "/" ++ child.name) inodes

namespace InodeTree

variable (tree : InodeTree)

/-- The files of the query, with their full paths. -/
def projectionRows (keeps : InodeRecord → Bool) : List ProjectionFileRecord :=
  (tree.inodes.filter fun i => i.kind = "FILE" && keeps i).flatMap fun i =>
    ((inodePaths tree.inodes).filter fun p => p.1.id = i.id).flatMap fun p =>
      (tree.revisions.filter fun r => r.inodeId = i.id && r.isCurrent).map fun r =>
        { inodeId := i.id, path := p.2, revisionId := r.revisionId, size := r.size,
          createdAt := r.createdAt }

end InodeTree

/-- The prefixes of the policies and the watch directory, if it is set. -/
def projectionBases (policies : List SyncPolicyRow) (watchDir : Option String) : List String :=
  (listSyncPolicies policies).map (·.pathPrefix) ++ watchDir.toList

namespace ProjectionFileRecord

def projected (basePaths : List String) (record : ProjectionFileRecord) : ProjectionFileRecord :=
  { record with path := projectionRelativePath record.path basePaths }

variable (basePaths : List String) (record : ProjectionFileRecord)

@[simp] theorem projected_inodeId : (record.projected basePaths).inodeId = record.inodeId := rfl

@[simp] theorem projected_path :
    (record.projected basePaths).path = projectionRelativePath record.path basePaths := rfl

end ProjectionFileRecord

def getActiveFilesForProjection (tree : InodeTree) (policies : List SyncPolicyRow)
    (watchDir : Option String) : List ProjectionFileRecord :=
  (orderBy (·.path) (tree.projectionRows (·.deletedAt.isNone))).map
    (·.projected (projectionBases policies watchDir))

def getActiveFileForProjectionByInode (tree : InodeTree) (policies : List SyncPolicyRow)
    (watchDir : Option String) (inodeId : ℤ) : Option ProjectionFileRecord :=
  ((limit 1 (tree.projectionRows (·.id = inodeId))).getLast?).map
    (·.projected (projectionBases policies watchDir))

/-! ## The head that is taken off -/

/-- The path as the bases are compared with it. -/
def projectionCandidate (path : String) : List Char := '/' :: (projectionNormalized path).toList

/-- The two forms of a base. -/
def baseHeads (base : String) : List (List Char) := [normalForm base, '/' :: normalForm base]

/-- What is taken off a path: if it has a colon the longest of the bases that it starts with, and
otherwise, or if there are none, the slash in front. -/
def TakesOff (basePaths : List String) (path : String) (head : List Char) : Prop :=
  (':' ∈ (projectionNormalized path).toList →
    IsLongestHead '/' (['/'] :: basePaths.flatMap baseHeads) (projectionCandidate path) head) ∧
  (':' ∉ (projectionNormalized path).toList → head = ['/'])

/-- The bytes of a head. -/
def headBytes (head : List Char) : ℕ := (String.ofList head).utf8ByteSize

/-- The best match with its characters. -/
def matchChars (best : ℕ × String) : ℕ × List Char := (best.1, best.2.toList)

theorem matchChars_snd (best : ℕ × String) : (matchChars best).2 = best.2.toList := rfl

theorem mem_slashed {text : String} : '\\' ∉ (slashed text).toList := by
  rw [slashed, String.toList_ofList, List.mem_map]
  rintro ⟨c, -, hc⟩
  split at hc
  · cases hc
  · exact absurd hc ‹_›

theorem slashed_eq_self {text : String} (h : '\\' ∉ text.toList) : slashed text = text := by
  have hmap : (text.toList.map fun c => if c = '\\' then '/' else c) = text.toList :=
    (List.map_congr_left fun c hc => if_neg (ne_of_mem_of_not_mem hc h)).trans (List.map_id _)
  rw [slashed, hmap, String.ofList_toList]

theorem projectionNormalized_spec (path : String) :
    '\\' ∉ (projectionNormalized path).toList ∧
      (projectionNormalized path).toList.head? ≠ some '/' := by
  have hinitial : (projectionNormalized path).toList =
      (Backup.trim (slashed path)).toList.dropWhile (· = '/') := by
    rw [projectionNormalized, trimStartMatches, String.toList_ofList]
  rw [hinitial]
  constructor
  · intro hmem
    exact mem_slashed (mem_trim ((List.dropWhile_sublist _).mem hmem))
  · exact (dropWhile_eq_iff.mp rfl).1

/-- A match of a head keeps the rest of the candidate behind it. -/
theorem matchHead_chars {candidate : String} (hslash : '\\' ∉ candidate.toList)
    (best : ℕ × String) (head : String) :
    matchChars (matchHead candidate best head) =
      keepHeavier headBytes '/' candidate.toList (matchChars best) head.toList := by
  rw [matchHead, keepHeavier]
  cases hdrop : candidate.toList.dropPrefix? head.toList with
  | none =>
    have hno : ¬ head.toList <+: candidate.toList := by
      rintro ⟨tail, htail⟩
      rw [← htail, List.dropPrefix?_append_of_beq _ (beq_self_eq_true _)] at hdrop
      cases hdrop
    rw [if_neg fun h => hno h.1.1]
  | some stripped =>
    obtain ⟨head', hcandidate, hhead⟩ := List.dropPrefix?_eq_some_iff.mp hdrop
    obtain rfl := eq_of_beq hhead
    have hrest : restBehind '/' head.toList candidate.toList = stripped.dropWhile (· = '/') := by
      rw [restBehind, hcandidate, List.drop_left]
    have hno : '\\' ∉ stripped.dropWhile (· = '/') := by
      intro hmem
      apply hslash
      rw [hcandidate]
      exact List.mem_append_right _ ((List.dropWhile_sublist _).mem hmem)
    have hstripped : trimStartMatches '\\' (trimStartMatches '/' (String.ofList stripped)) =
        String.ofList (stripped.dropWhile (· = '/')) := by
      rw [trimStartMatches, trimStartMatches, String.toList_ofList, String.toList_ofList]
      congr 1
      exact (dropWhile_eq_iff.mpr ⟨fun h => hno (List.mem_of_head? h), 0, rfl⟩)
    have hinitial : head.toList <+: candidate.toList := ⟨stripped, hcandidate.symm⟩
    have hbytes : headBytes head.toList = head.utf8ByteSize := by
      rw [headBytes, String.ofList_toList]
    have hkeeps : (String.ofList (stripped.dropWhile (· = '/')) ≠ "" ∧
        head.utf8ByteSize > best.1) ↔
        IsHead '/' head.toList candidate.toList ∧ (matchChars best).1 < headBytes head.toList := by
      have hempty : String.ofList (stripped.dropWhile (· = '/')) = "" ↔
          stripped.dropWhile (· = '/') = [] := by
        rw [← String.toList_inj, String.toList_ofList]
        rfl
      rw [hbytes, IsHead, hrest, ne_eq, hempty]
      exact and_congr_left fun _ => (and_iff_right hinitial).symm
    dsimp only
    rw [hstripped, hrest, slashed_eq_self (by rwa [String.toList_ofList])]
    by_cases h : IsHead '/' head.toList candidate.toList ∧
        (matchChars best).1 < headBytes head.toList
    · rw [if_pos h, if_pos (hkeeps.mpr h), matchChars, String.toList_ofList, hbytes]
    · rw [if_neg h, if_neg (mt hkeeps.mp h)]

/-- The loop over the bases keeps the rest behind a heaviest head. -/
theorem foldl_matchBase_chars {candidate : String} (hslash : '\\' ∉ candidate.toList)
    (best : ℕ × String) (basePaths : List String) :
    matchChars (basePaths.foldl (matchBase candidate) best) =
      (basePaths.flatMap baseHeads).foldl (keepHeavier headBytes '/' candidate.toList)
        (matchChars best) := by
  induction basePaths generalizing best with
  | nil => rfl
  | cons base rest ih =>
    have hne : normalizePolicyPath base ≠ "" := by
      intro h
      apply (normalForm_spec base).1
      rw [normalForm, h]
      rfl
    have hheads : baseHeads base =
        [(normalizePolicyPath base).toList, ("/" ++ normalizePolicyPath base).toList] := by
      rw [String.toList_append]
      rfl
    rw [List.foldl_cons, List.flatMap_cons, List.foldl_append, ih, matchBase, if_neg hne, hheads]
    simp only [List.foldl_cons, List.foldl_nil, matchHead_chars hslash]

theorem headBytes_append (a b : List Char) : headBytes (a ++ b) = headBytes a + headBytes b := by
  rw [headBytes, String.ofList_append, String.utf8ByteSize_append]
  rfl

theorem headBytes_pos {head : List Char} (h : head ≠ []) : 0 < headBytes head := by
  rw [Nat.pos_iff_ne_zero, headBytes, ne_eq, String.utf8ByteSize_eq_zero_iff]
  intro hempty
  apply h
  rw [← String.toList_ofList (l := head), hempty]
  rfl

theorem headBytes_lt_append (a b : List Char) (h : b ≠ []) : headBytes a < headBytes (a ++ b) := by
  rw [headBytes_append]
  exact Nat.lt_add_of_pos_right (headBytes_pos h)

theorem restBehind_slash (path : String) : restBehind '/' ['/'] (projectionCandidate path) =
    (projectionNormalized path).toList := by
  obtain ⟨-, hhead⟩ := projectionNormalized_spec path
  rw [projectionCandidate]
  generalize (projectionNormalized path).toList = normalized at hhead ⊢
  exact dropWhile_eq_iff.mpr ⟨hhead, 0, (List.nil_append _).symm⟩

theorem ne_nil_of_mem_baseHeads {basePaths : List String} {head : List Char}
    (h : head ∈ basePaths.flatMap baseHeads) : head ≠ [] := by
  obtain ⟨base, -, hhead⟩ := List.mem_flatMap.mp h
  rw [baseHeads, List.mem_cons, List.mem_singleton] at hhead
  rcases hhead with heq | heq
  · rw [heq]
    exact (normalForm_spec base).1
  · rw [heq]
    exact List.cons_ne_nil _ _

/-- What a path gets is what follows the head that is taken off. -/
theorem exists_takesOff (basePaths : List String) (path : String) :
    ∃ head, TakesOff basePaths path head ∧ (projectionRelativePath path basePaths).toList =
      restBehind '/' head (projectionCandidate path) := by
  rw [projectionRelativePath]
  by_cases hcolon : ':' ∈ (projectionNormalized path).toList
  · have hslash : '\\' ∉ ("/" ++ projectionNormalized path).toList := by
      rw [String.toList_append]
      exact List.not_mem_cons_of_ne_of_not_mem (by decide) (projectionNormalized_spec path).1
    have hcandidate : ("/" ++ projectionNormalized path).toList = projectionCandidate path := by
      rw [String.toList_append]
      rfl
    have hloop := foldl_matchBase_chars hslash (0, projectionNormalized path) basePaths
    rw [hcandidate] at hloop
    have hroot : IsHead '/' ['/'] (projectionCandidate path) := by
      refine ⟨List.prefix_append ['/'] _, ?_⟩
      rw [restBehind_slash]
      exact List.ne_nil_of_mem hcolon
    rw [if_neg (not_not.mpr hcolon)]
    have htakes : ∀ head, TakesOff basePaths path head ↔
        IsLongestHead '/' (['/'] :: basePaths.flatMap baseHeads) (projectionCandidate path) head :=
      fun head => ⟨fun h => h.1 hcolon, fun h => ⟨fun _ => h, fun hno => absurd hcolon hno⟩⟩
    simp only [htakes]
    rcases foldl_keepHeavier headBytes '/' (projectionCandidate path)
      (basePaths.flatMap baseHeads) (matchChars (0, projectionNormalized path)) with ⟨hfold, hbound⟩ |
        ⟨head, hmem, hhead, hlt, hfold, hbound⟩
    · rw [hfold] at hloop
      refine ⟨['/'], ⟨List.mem_cons_self, hroot, ?_⟩, ?_⟩
      · intro other hother hinitial
        rcases List.mem_cons.mp hother with heq | hother
        · rw [heq]
        · have hpos := headBytes_pos (ne_nil_of_mem_baseHeads hother)
          exact absurd (hbound other hother hinitial) (not_le.mpr hpos)
      · rw [← matchChars_snd, hloop, matchChars_snd, restBehind_slash]
    · rw [hfold] at hloop
      refine ⟨head, ⟨List.mem_cons_of_mem _ hmem, hhead, ?_⟩, by rw [← matchChars_snd, hloop]⟩
      intro other hother hinitial
      rcases List.mem_cons.mp hother with heq | hother
      · rw [heq]
        exact List.prefix_of_prefix_length_le hroot.1 hhead.1
          (List.length_pos_of_ne_nil (ne_nil_of_mem_baseHeads hmem))
      · exact isPrefix_of_weight_le headBytes_lt_append hhead.1 hinitial.1
          (hbound other hother hinitial)
  · rw [if_pos hcolon]
    exact ⟨['/'], ⟨fun h => absurd h hcolon, fun _ => rfl⟩, (restBehind_slash path).symm⟩

theorem TakesOff.unique {basePaths : List String} {path : String} {head other : List Char}
    (h : TakesOff basePaths path head) (h' : TakesOff basePaths path other) : head = other := by
  by_cases hcolon : ':' ∈ (projectionNormalized path).toList
  · exact (h.1 hcolon).unique (h'.1 hcolon)
  · rw [h.2 hcolon, h'.2 hcolon]

end OmniDrive
