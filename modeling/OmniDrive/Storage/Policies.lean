import Mathlib.Algebra.Order.BigOperators.Group.List
import Mathlib.Data.List.DropRight
import Mathlib.Order.Bounds.Basic
import OmniDrive.Crypto.Symbolic
import OmniDrive.Library.BasePaths
import OmniDrive.Startup.Identity
import OmniDrive.Storage.RepairTables

/-!
# Sync policies

The policy of a path is searched among all policies whose normalised prefix is a base of it. The
search takes the longest prefix as it is stored, with the slashes and blanks that the comparison
drops. A pack takes the strongest of the storage modes of the inodes that refer to it.
-/

namespace OmniDrive

open StatementProgram BasePaths Tables

variable {P : Primitives}

/-- A row of `sync_policies` with its key. -/
structure SyncPolicyRow extends SyncPolicyRecord where
  policyId : ℤ
  deriving DecidableEq, Repr

/-- The table `sync_policies`, with its primary key and its unique column. -/
structure SyncPolicies where
  rows : List SyncPolicyRow
  policyId_nodup : (rows.map (·.policyId)).Nodup
  pathPrefix_nodup : (rows.map (·.pathPrefix)).Nodup

/-! ## `sync_policies.rs` -/

/-- SQLite's `LENGTH` of a text, its characters before the first NUL. -/
def sqlLength (text : String) : ℕ := (text.toList.takeWhile (· ≠ '\x00')).length

/-- The order of the query, `LENGTH(path_prefix) DESC, policy_id ASC`. -/
def policyOrder (policy : SyncPolicyRow) : ℕᵒᵈ ×ₗ ℤ :=
  toLex (OrderDual.toDual (sqlLength policy.pathPrefix), policy.policyId)

def listSyncPolicies (rows : List SyncPolicyRow) : List SyncPolicyRow :=
  orderBy policyOrder rows

def slashed (path : String) : String :=
  String.ofList (path.toList.map fun c => if c = '\\' then '/' else c)

def normalizePolicyPath (path : String) : String :=
  let normalized :=
    String.ofList ((Backup.trim (slashed path)).toList.rdropWhile (· = '/'))
  if normalized = "" then "/" else normalized

def pathMatchesPolicy (path pathPrefix : String) : Bool :=
  let path := normalizePolicyPath path
  let pathPrefix := normalizePolicyPath pathPrefix
  if pathPrefix = "/" then true
  else if path = pathPrefix then true
  else (path.toList.dropPrefix? pathPrefix.toList).any fun suffix => suffix.head? = some '/'

def findSyncPolicyForPath (rows : List SyncPolicyRow) (path : String) : Option SyncPolicyRow :=
  let normalizedPath := normalizePolicyPath path
  maxByKey (fun policy => policy.pathPrefix.utf8ByteSize)
    ((listSyncPolicies rows).filter fun policy => pathMatchesPolicy normalizedPath policy.pathPrefix)

/-! ## `get_inode_path` -/

/-- The names from an inode up to its root, over so many rows at most. -/
def inodeNames (inodes : List InodeRecord) : ℕ → ℤ → List String
  | 0, _ => []
  | n + 1, inodeId =>
    match inodes.find? (·.id = inodeId) with
    | none => []
    | some inode =>
      inode.name :: match inode.parentId with
        | some parentId => inodeNames inodes n parentId
        | none => []

def getInodePath (inodes : List InodeRecord) (inodeId : ℤ) : Option String :=
  let names := inodeNames inodes inodes.length inodeId
  if names.isEmpty then none else some ("/".intercalate names.reverse)

/-- Where parents come before their children, as many rows as there are lead to the root. -/
theorem inodeNames_succ {inodes : List InodeRecord}
    (hparents : ∀ i ∈ inodes, ∀ parentId, i.parentId = some parentId → parentId < i.id) {n : ℕ}
    {inodeId : ℤ} (hn : inodes.countP (fun i => i.id ≤ inodeId) ≤ n) :
    inodeNames inodes (n + 1) inodeId = inodeNames inodes n inodeId := by
  induction n generalizing inodeId with
  | zero =>
    have hnone : inodes.find? (·.id = inodeId) = none := by
      rw [List.find?_eq_none]
      intro i hi hid
      have hle := List.countP_eq_zero.mp (Nat.le_zero.mp hn) i hi
      simp only [decide_eq_true_eq] at hid hle
      exact hle hid.le
    rw [inodeNames.eq_def]
    dsimp only
    rw [hnone]
    rfl
  | succ n ih =>
    rw [inodeNames, inodeNames]
    cases hfind : inodes.find? (·.id = inodeId) with
    | none => rfl
    | some inode =>
      have hmem := List.mem_of_find?_eq_some hfind
      have hid : inode.id = inodeId := by simpa using List.find?_some hfind
      cases hparent : inode.parentId with
      | none => simp only [hparent]
      | some parentId =>
        have hlt : parentId < inodeId := hid ▸ hparents inode hmem parentId hparent
        have hfewer : inodes.countP (fun i => i.id ≤ parentId) <
            inodes.countP (fun i => i.id ≤ inodeId) := by
          apply countP_lt_countP _ hmem
          · simpa [hid] using hlt
          · simpa using hid.le
          · intro i _ hle
            rw [decide_eq_true_eq] at hle ⊢
            exact hle.trans hlt.le
        have hrest : inodeNames inodes (n + 1) parentId = inodeNames inodes n parentId :=
          ih (by omega)
        simp only [hparent, hrest]

/-- The type of the policy that covers an inode. -/
def policyTypeFor (rows : List SyncPolicyRow) (inodes : List InodeRecord) (inodeId : ℤ) :
    Option String :=
  (findSyncPolicyForPath rows ((getInodePath inodes inodeId).getD s!"inode/{inodeId}")).map
    (·.policyType)

/-- The file tables with the types that a table of policies gives to their inodes. -/
def FileDb.underPolicies (policies : SyncPolicies) (db : FileDb) : FileDb :=
  { db with policyTypes := policyTypeFor policies.rows db.inodes }

/-! ## What is asked of the policies -/

/-- The characters of a prefix or a path as they are compared. -/
def normalForm (path : String) : List Char := (normalizePolicyPath path).toList

/-- The path of a lookup, which the search and the comparison both normalise. -/
def lookupForm (path : String) : List Char := normalForm (normalizePolicyPath path)

/-- The root covers every path, and any other prefix those that have it as a base. -/
def PolicyCovers (policy : SyncPolicyRow) (path : List Char) : Prop :=
  normalForm policy.pathPrefix = ['/'] ∨ IsBase '/' (normalForm policy.pathPrefix) path

instance (policy : SyncPolicyRow) (path : List Char) : Decidable (PolicyCovers policy path) := by
  unfold PolicyCovers
  infer_instance

/-- The policy found has the longest normalised prefix of all that cover the path. -/
structure ResolvesLongest (rows : List SyncPolicyRow) (path : String) : Prop where
  found : ∀ p, findSyncPolicyForPath rows path = some p → p ∈ rows ∧
    PolicyCovers p (lookupForm path) ∧
    ∀ q ∈ rows, PolicyCovers q (lookupForm path) →
      (normalForm q.pathPrefix).length ≤ (normalForm p.pathPrefix).length
  missing : findSyncPolicyForPath rows path = none → ∀ q ∈ rows, ¬ PolicyCovers q (lookupForm path)

/-- The strength of the protection, `LOCAL_ONLY < SINGLE_REPLICA < EC_2_1`. -/
def StorageMode.protection : StorageMode → ℕ
  | .localOnly => 0
  | .singleReplica => 1
  | .ec21 => 2

theorem StorageMode.protection_injective : Function.Injective StorageMode.protection := by
  intro a b h
  cases a <;> cases b <;> first | rfl | cases h

instance : PartialOrder StorageMode :=
  PartialOrder.lift StorageMode.protection StorageMode.protection_injective

/-- An inode has a revision with a chunk in the pack. -/
def References (db : FileDb) (packId : String) (inodeId : ℤ) : Prop :=
  ∃ pl ∈ db.packLocations, pl.packId = packId ∧ ∃ cr ∈ db.chunkRefs, cr.chunkId = pl.chunkId ∧
    ∃ r ∈ db.fileRevisions, r.revisionId = cr.revisionId ∧ r.inodeId = inodeId

/-- The storage modes asked for by the inodes that refer to a pack. -/
def askedModes (w : FileWorld P) (packId : String) : Set StorageMode :=
  {mode | ∃ inodeId, References w.db packId inodeId ∧
    (Db.getStorageModeForInode inodeId : FileProg P DbError StorageMode).run w = (.ok mode, w)}

/-- The pack gets the strongest of the modes that are asked for, if any is. -/
def TakesStrongest (w : FileWorld P) (packId : String) : Prop :=
  ∃ mode, (Db.getDesiredStorageModeForPack packId : FileProg P DbError StorageMode).run w =
    (.ok mode, w) ∧ ((askedModes w packId).Nonempty → IsGreatest (askedModes w packId) mode)

/-- Every path gets its most specific policy, whatever the order of the rows, and every pack the
strongest mode that its files were promised. -/
structure PoliciesHold (P : Primitives) (policies : SyncPolicies) : Prop where
  longest : ∀ path, ResolvesLongest policies.rows path
  anyOrder : ∀ rows : List SyncPolicyRow, rows.Perm policies.rows → ∀ path,
    findSyncPolicyForPath rows path = findSyncPolicyForPath policies.rows path
  strongest : ∀ (w : FileWorld P) (packId : String),
    TakesStrongest { w with db := w.db.underPolicies policies } packId

/-! ## The search by stored length -/

/-- The order in which the search prefers policies: by stored length, then the later row. -/
def preference (policy : SyncPolicyRow) : ℕ ×ₗ (ℕᵒᵈ ×ₗ ℤ) :=
  toLex (policy.pathPrefix.utf8ByteSize, policyOrder policy)

/-- Where one normalised prefix is a proper base of another, some policy of the longer one is
preferred to the shorter one. -/
def StoredLengthsAgree (rows : List SyncPolicyRow) : Prop :=
  ∀ p ∈ rows, ∀ q ∈ rows, (normalForm p.pathPrefix).length < (normalForm q.pathPrefix).length →
    PolicyCovers p (normalForm q.pathPrefix) →
      ∃ r ∈ rows, normalForm r.pathPrefix = normalForm q.pathPrefix ∧ preference p < preference r

instance (rows : List SyncPolicyRow) : Decidable (StoredLengthsAgree rows) := by
  unfold StoredLengthsAgree
  infer_instance

theorem dropPrefix?_slash_iff (path base : List Char) :
    ((path.dropPrefix? base).any fun suffix => suffix.head? = some '/') = true ↔
      ∃ rest, path = base ++ '/' :: rest := by
  rw [Option.any_eq_true]
  constructor
  · rintro ⟨suffix, hsuffix, hhead⟩
    obtain ⟨base', hpath, hbase⟩ := List.dropPrefix?_eq_some_iff.mp hsuffix
    obtain ⟨rest, rfl⟩ := List.head?_eq_some_iff.mp (of_decide_eq_true hhead)
    exact ⟨rest, by rw [hpath, eq_of_beq hbase]⟩
  · rintro ⟨rest, rfl⟩
    exact ⟨'/' :: rest, List.dropPrefix?_append_of_beq _ (beq_self_eq_true base), rfl⟩

theorem pathMatchesPolicy_iff (path : String) (policy : SyncPolicyRow) :
    pathMatchesPolicy path policy.pathPrefix = true ↔ PolicyCovers policy (normalForm path) := by
  have hroot : normalizePolicyPath policy.pathPrefix = "/" ↔
      normalForm policy.pathPrefix = ['/'] := by
    rw [normalForm, ← String.toList_inj]
    rfl
  have hsame : normalizePolicyPath path = normalizePolicyPath policy.pathPrefix ↔
      normalForm path = normalForm policy.pathPrefix := String.toList_inj.symm
  have hbelow := dropPrefix?_slash_iff (normalForm path) (normalForm policy.pathPrefix)
  unfold pathMatchesPolicy PolicyCovers IsBase
  dsimp only
  by_cases hslash : normalizePolicyPath policy.pathPrefix = "/"
  · simp [hslash, hroot.mp hslash]
  rw [if_neg hslash]
  by_cases heq : normalizePolicyPath path = normalizePolicyPath policy.pathPrefix
  · simp [heq, hsame.mp heq]
  rw [if_neg heq]
  simp only [mt hroot.mpr hslash, mt hsame.mpr heq, false_or]
  exact hbelow

theorem policyOrder_injective {policies : SyncPolicies} {p q : SyncPolicyRow}
    (hp : p ∈ policies.rows) (hq : q ∈ policies.rows) (h : policyOrder p = policyOrder q) :
    p = q :=
  List.inj_on_of_nodup_map policies.policyId_nodup hp hq (congrArg (fun x => (ofLex x).2) h)

/-- The order of the rows of the table does not matter to the query. -/
theorem listSyncPolicies_perm {policies : SyncPolicies} {rows : List SyncPolicyRow}
    (hperm : rows.Perm policies.rows) :
    listSyncPolicies rows = listSyncPolicies policies.rows := by
  apply ((orderBy_perm policyOrder rows).trans
    (hperm.trans (orderBy_perm policyOrder policies.rows).symm)).eq_of_pairwise _
    (pairwise_orderBy policyOrder rows) (pairwise_orderBy policyOrder policies.rows)
  intro a b ha hb hab hba
  exact policyOrder_injective (hperm.mem_iff.mp ((mem_orderBy _ _ a).mp ha))
    ((mem_orderBy _ _ b).mp hb) (le_antisymm hab hba)

/-- The policy found is preferred to all others that cover the path. -/
theorem of_findSyncPolicyForPath {rows : List SyncPolicyRow} {path : String}
    {p : SyncPolicyRow} (h : findSyncPolicyForPath rows path = some p) :
    p ∈ rows ∧ PolicyCovers p (lookupForm path) ∧
      ∀ q ∈ rows, PolicyCovers q (lookupForm path) → preference q ≤ preference p := by
  have hsorted := (pairwise_orderBy policyOrder rows).filter
    fun policy => pathMatchesPolicy (normalizePolicyPath path) policy.pathPrefix
  obtain ⟨hmem, hgreatest⟩ := maxByKey_sorted hsorted h
  have hcovering : ∀ q, q ∈ (listSyncPolicies rows).filter
      (fun policy => pathMatchesPolicy (normalizePolicyPath path) policy.pathPrefix) ↔
      q ∈ rows ∧ PolicyCovers q (lookupForm path) := by
    intro q
    rw [List.mem_filter, listSyncPolicies, mem_orderBy, pathMatchesPolicy_iff]
    rfl
  exact ⟨((hcovering p).mp hmem).1, ((hcovering p).mp hmem).2,
    fun q hq hcovers => hgreatest q ((hcovering q).mpr ⟨hq, hcovers⟩)⟩

/-- None is found where none covers the path. -/
theorem findSyncPolicyForPath_eq_none {rows : List SyncPolicyRow} {path : String}
    (h : findSyncPolicyForPath rows path = none) : ∀ q ∈ rows, ¬ PolicyCovers q (lookupForm path) := by
  intro q hq hcovers
  have hnil := List.filter_eq_nil_iff.mp (maxByKey_eq_none_iff.mp h) q
    ((mem_orderBy policyOrder rows q).mpr hq)
  exact hnil ((pathMatchesPolicy_iff _ q).mpr hcovers)

/-! ## Normal forms -/

theorem mem_trim {text : String} {c : Char} (h : c ∈ (Backup.trim text).toList) :
    c ∈ text.toList := by
  rw [Backup.trim, String.toList_ofList, List.mem_reverse] at h
  exact (List.dropWhile_sublist _).mem (List.mem_reverse.mp ((List.dropWhile_sublist _).mem h))

/-- A trimmed text does not start with white space. -/
theorem head_trim {text : String} {c : Char} (h : (Backup.trim text).toList.head? = some c) :
    Backup.isWhiteSpace c = false := by
  rw [Backup.trim, String.toList_ofList] at h
  obtain ⟨rest, hrest⟩ := List.head?_eq_some_iff.mp h
  have hinitial : (text.toList.dropWhile Backup.isWhiteSpace).rdropWhile Backup.isWhiteSpace <+:
      text.toList.dropWhile Backup.isWhiteSpace := List.rdropWhile_prefix _ _
  rw [List.rdropWhile, hrest] at hinitial
  obtain ⟨tail, htail⟩ := hinitial
  have hhead := List.head?_dropWhile_not Backup.isWhiteSpace text.toList
  rw [← htail] at hhead
  exact hhead

/-- A normal form is not empty, has no backslash and starts with a character that is kept. -/
theorem normalForm_spec (path : String) : normalForm path ≠ [] ∧ '\\' ∉ normalForm path ∧
    ∀ c, (normalForm path).head? = some c → Backup.isWhiteSpace c = false := by
  have hinitial : (Backup.trim (slashed path)).toList.rdropWhile (· = '/') <+:
      (Backup.trim (slashed path)).toList := List.rdropWhile_prefix _ _
  unfold normalForm normalizePolicyPath
  dsimp only
  split
  · refine ⟨List.cons_ne_nil _ _, by decide, ?_⟩
    intro c hc
    obtain rfl : '/' = c := Option.some.inj hc
    decide
  · rename_i hne
    rw [String.toList_ofList]
    refine ⟨fun h => hne (by rw [h]), fun hmem => ?_, fun c hc => ?_⟩
    · have hslashed := mem_trim (hinitial.subset hmem)
      rw [slashed, String.toList_ofList, List.mem_map] at hslashed
      obtain ⟨c, -, hc⟩ := hslashed
      split at hc
      · cases hc
      · exact absurd hc ‹_›
    · obtain ⟨rest, hrest⟩ := List.head?_eq_some_iff.mp hc
      rw [hrest] at hinitial
      obtain ⟨tail, htail⟩ := hinitial
      apply head_trim
      rw [← htail]
      rfl

/-- A path is its own normal form if it has no backslash, starts with a character that is kept and
ends with one that is kept and no slash. -/
theorem normalForm_eq_self {path : List Char} {c : Char} (hslash : '\\' ∉ path ++ [c])
    (hhead : ∀ d, (path ++ [c]).head? = some d → Backup.isWhiteSpace d = false)
    (hwhite : Backup.isWhiteSpace c = false) (hlast : c ≠ '/') :
    normalizePolicyPath (String.ofList (path ++ [c])) = String.ofList (path ++ [c]) := by
  have hslashed : slashed (String.ofList (path ++ [c])) = String.ofList (path ++ [c]) := by
    rw [slashed, String.toList_ofList]
    congr 1
    refine (List.map_congr_left fun d hd => ?_).trans (List.map_id _)
    rw [if_neg (ne_of_mem_of_not_mem hd hslash), id]
  have htrim : Backup.trim (String.ofList (path ++ [c])) = String.ofList (path ++ [c]) := by
    have hstart : (path ++ [c]).dropWhile Backup.isWhiteSpace = path ++ [c] := by
      obtain ⟨d, rest, hrest⟩ := List.exists_cons_of_ne_nil (List.concat_ne_nil c path)
      rw [hrest] at hhead ⊢
      exact List.dropWhile_cons_of_neg (by simp [hhead d rfl])
    rw [Backup.trim, String.toList_ofList, hstart, List.reverse_append, List.reverse_singleton,
      List.singleton_append, List.dropWhile_cons_of_neg (by simp [hwhite]), List.reverse_cons,
      List.reverse_reverse]
  have hend : (path ++ [c]).rdropWhile (· = '/') = path ++ [c] :=
    List.rdropWhile_concat_neg _ _ _ (by simpa using hlast)
  have hne : String.ofList (path ++ [c]) ≠ "" := by
    intro h
    have hnil : path ++ [c] = [] := by
      rw [← String.toList_ofList (l := path ++ [c]), h]
      rfl
    exact List.append_ne_nil_of_right_ne_nil _ (List.cons_ne_nil _ _) hnil
  unfold normalizePolicyPath
  dsimp only
  rw [hslashed, htrim, String.toList_ofList, hend, if_neg hne]

/-- A path just below a normal form, longer than all prefixes, is covered by the same policies as the
normal form itself. -/
theorem exists_path_below (rows : List SyncPolicyRow) (q : SyncPolicyRow) :
    ∃ path, ∀ p ∈ rows,
      PolicyCovers p (lookupForm path) ↔ PolicyCovers p (normalForm q.pathPrefix) := by
  let lengths := rows.map fun p => (normalForm p.pathPrefix).length
  have hn : ∀ p ∈ rows, (normalForm p.pathPrefix).length ≤ lengths.sum := fun p hp =>
    List.single_le_sum (fun _ _ => Nat.zero_le _) _ (List.mem_map_of_mem hp)
  generalize lengths.sum = n at hn
  obtain ⟨hne, hslash, hhead⟩ := normalForm_spec q.pathPrefix
  have hend : List.replicate (n + 1) 'x' = List.replicate n 'x' ++ ['x'] := List.replicate_succ'
  have hpath : normalForm q.pathPrefix ++ '/' :: List.replicate (n + 1) 'x' =
      (normalForm q.pathPrefix ++ '/' :: List.replicate n 'x') ++ ['x'] := by
    rw [hend, List.append_assoc, List.cons_append]
  have hself : normalizePolicyPath
      (String.ofList (normalForm q.pathPrefix ++ '/' :: List.replicate (n + 1) 'x')) =
      String.ofList (normalForm q.pathPrefix ++ '/' :: List.replicate (n + 1) 'x') := by
    rw [hpath]
    apply normalForm_eq_self _ _ (by decide) (by decide)
    · rw [← hpath]
      simp [hslash]
    · intro d hd
      apply hhead
      rwa [← hpath, List.head?_append_of_ne_nil _ hne] at hd
  have hlookup : lookupForm
      (String.ofList (normalForm q.pathPrefix ++ '/' :: List.replicate (n + 1) 'x')) =
      normalForm q.pathPrefix ++ '/' :: List.replicate (n + 1) 'x' := by
    rw [lookupForm, normalForm, hself, hself, String.toList_ofList]
  refine ⟨String.ofList (normalForm q.pathPrefix ++ '/' :: List.replicate (n + 1) 'x'),
    fun p hp => ?_⟩
  rw [hlookup]
  have hlong : normalForm p.pathPrefix ≠
      normalForm q.pathPrefix ++ '/' :: List.replicate (n + 1) 'x' := by
    intro h
    have hlength := congrArg List.length h
    have hbound := hn p hp
    rw [List.length_append, List.length_cons, List.length_replicate] at hlength
    omega
  have hno : '/' ∉ List.replicate (n + 1) 'x' := by simp
  rw [PolicyCovers, PolicyCovers, isBase_append_iff hno, or_iff_right hlong]

theorem length_normalForm_pos (path : String) : 0 < (normalForm path).length :=
  List.length_pos_of_ne_nil (normalForm_spec path).1

/-- The search finds the longest policy of every path exactly where the stored lengths agree with
the normalised ones. -/
theorem resolvesLongest_iff (policies : SyncPolicies) :
    (∀ path, ResolvesLongest policies.rows path) ↔ StoredLengthsAgree policies.rows := by
  constructor
  · intro h p hp q hq hlt hcovers
    obtain ⟨path, hpath⟩ := exists_path_below policies.rows q
    have hqcovers : PolicyCovers q (lookupForm path) := (hpath q hq).mpr (.inr (.refl _))
    have hpcovers : PolicyCovers p (lookupForm path) := (hpath p hp).mpr hcovers
    cases hfound : findSyncPolicyForPath policies.rows path with
    | none => exact absurd hqcovers ((h path).missing hfound q hq)
    | some r =>
      obtain ⟨hr, hrcovers, hlongest⟩ := (h path).found r hfound
      have hle := hlongest q hq hqcovers
      have hsame : normalForm r.pathPrefix = normalForm q.pathPrefix := by
        rcases (hpath r hr).mp hrcovers with hroot | hbase
        · -- the root is not longer than `p`, which is shorter than `q`
          have hpos := length_normalForm_pos p.pathPrefix
          rw [hroot, List.length_singleton] at hle
          omega
        · exact hbase.eq_of_length_le hle
      refine ⟨r, hr, hsame, lt_of_le_of_ne ((of_findSyncPolicyForPath hfound).2.2 p hp hpcovers) ?_⟩
      intro heq
      have hrow : p = r := policyOrder_injective hp hr (congrArg (fun x => (ofLex x).2) heq)
      rw [hrow, hsame] at hlt
      exact lt_irrefl _ hlt
  · intro h path
    refine ⟨fun r hfound => ?_, findSyncPolicyForPath_eq_none⟩
    obtain ⟨hr, hrcovers, hpreferred⟩ := of_findSyncPolicyForPath hfound
    refine ⟨hr, hrcovers, fun q hq hqcovers => ?_⟩
    by_contra hlt
    rw [not_le] at hlt
    -- a longer policy of the path is below the one found, so that one like it is preferred
    have hbelow : PolicyCovers r (normalForm q.pathPrefix) := by
      rcases hrcovers with hroot | hrbase
      · exact .inl hroot
      · rcases hqcovers with hroot | hqbase
        · have hpos := length_normalForm_pos r.pathPrefix
          rw [hroot, List.length_singleton] at hlt
          omega
        · exact .inr (hrbase.of_length_le hqbase hlt.le)
    obtain ⟨q', hq', hsame, hless⟩ := h r hr q hq hlt hbelow
    have hcovers : PolicyCovers q' (lookupForm path) := by
      rw [PolicyCovers, hsame]
      exact hqcovers
    exact absurd (hpreferred q' hq' hcovers) (not_le.mpr hless)

/-! ## The mode of a pack -/

theorem mem_referencingInodeIds {db : FileDb} {packId : String} {inodeId : ℤ} :
    inodeId ∈ Db.referencingInodeIds packId db ↔ References db packId inodeId := by
  simp only [Db.referencingInodeIds, mem_orderBy, List.mem_dedup, List.mem_flatMap, List.mem_filter,
    List.mem_map, decide_eq_true_eq, References]
  grind

theorem StorageMode.localOnly_le (mode : StorageMode) : .localOnly ≤ mode := Nat.zero_le _

theorem StorageMode.le_ec21 (mode : StorageMode) : mode ≤ .ec21 := by
  change mode.protection ≤ 2
  cases mode <;> decide

/-- The search over the inodes keeps the strongest mode that it has met. -/
theorem desiredMode_spec (db : FileDb) (desired : StorageMode) (hdesired : desired ≠ .ec21)
    (inodeIds : List ℤ) :
    desired ≤ Db.desiredMode db desired inodeIds ∧
      (∀ inodeId ∈ inodeIds, Db.storageModeOf inodeId db ≤ Db.desiredMode db desired inodeIds) ∧
      (Db.desiredMode db desired inodeIds = desired ∨
        ∃ inodeId ∈ inodeIds, Db.storageModeOf inodeId db = Db.desiredMode db desired inodeIds) := by
  induction inodeIds generalizing desired with
  | nil => exact ⟨le_refl _, by simp, .inl rfl⟩
  | cons inodeId rest ih =>
    rw [Db.desiredMode]
    simp only [List.forall_mem_cons, List.exists_mem_cons_iff]
    cases hmode : Db.storageModeOf inodeId db with
    | ec21 => exact ⟨StorageMode.le_ec21 _, ⟨le_refl _, fun _ _ => StorageMode.le_ec21 _⟩, .inr (.inl rfl)⟩
    | singleReplica =>
      obtain ⟨hbound, hrest, hattained⟩ := ih .singleReplica (by decide)
      have hle : desired ≤ .singleReplica := by
        change desired.protection ≤ 1
        cases desired with
        | ec21 => exact absurd rfl hdesired
        | singleReplica => decide
        | localOnly => decide
      exact ⟨hle.trans hbound, ⟨hbound, hrest⟩, .inr (hattained.imp_left Eq.symm)⟩
    | localOnly =>
      obtain ⟨hbound, hrest, hattained⟩ := ih desired hdesired
      exact ⟨hbound, ⟨StorageMode.localOnly_le _, hrest⟩, hattained.imp_right .inr⟩

theorem takesStrongest (w : FileWorld P) (packId : String) : TakesStrongest w packId := by
  have hasked : askedModes w packId =
      {mode | ∃ inodeId ∈ Db.referencingInodeIds packId w.db,
        Db.storageModeOf inodeId w.db = mode} := by
    ext mode
    have hrun : ∀ inodeId, (Db.getStorageModeForInode inodeId :
        FileProg P DbError StorageMode).run w = (.ok (Db.storageModeOf inodeId w.db), w) :=
      fun inodeId => rfl
    simp only [askedModes, Set.mem_ofPred_eq, mem_referencingInodeIds, hrun, Prod.mk.injEq,
      Except.ok.injEq, and_true]
  refine ⟨_, RepairDb.run_getDesiredStorageModeForPack packId w, ?_⟩
  rw [hasked, RepairDb.desiredModeOf]
  rintro ⟨asked, inodeId, hinode, rfl⟩
  have hnonempty : ¬ (Db.referencingInodeIds packId w.db).isEmpty = true := by
    rw [List.isEmpty_iff]
    exact List.ne_nil_of_mem hinode
  rw [if_neg hnonempty]
  obtain ⟨-, hbound, hattained⟩ := desiredMode_spec w.db .localOnly (by decide)
    (Db.referencingInodeIds packId w.db)
  constructor
  · rcases hattained with hlocal | hattained
    · refine ⟨inodeId, hinode, ?_⟩
      rw [hlocal]
      exact le_antisymm (hlocal ▸ hbound inodeId hinode) (StorageMode.localOnly_le _)
    · exact hattained
  · rintro mode ⟨other, hother, rfl⟩
    exact hbound other hother

/-- The policies hold exactly where the stored lengths agree with the normalised ones. -/
theorem policiesHold_iff (policies : SyncPolicies) :
    PoliciesHold P policies ↔ StoredLengthsAgree policies.rows := by
  rw [← resolvesLongest_iff]
  refine ⟨PoliciesHold.longest, fun h => ⟨h, fun rows hperm path => ?_, ?_⟩⟩
  · unfold findSyncPolicyForPath
    rw [listSyncPolicies_perm hperm]
  · exact fun w packId => takesStrongest _ packId

/-- A policy of a folder, as `policyOf` makes it. -/
def policyRow (policyId : ℤ) (pathPrefix policyType : String) : SyncPolicyRow :=
  { policyOf policyType pathPrefix with policyId }

/-- A folder whose prefix is stored with slashes behind it, and a folder inside it. -/
def slashedPolicies : SyncPolicies where
  rows := [policyRow 1 "docs/////////" "LOCAL", policyRow 2 "docs/tax" "PARANOIA"]
  policyId_nodup := by decide
  pathPrefix_nodup := by decide

/-- A file of the inner folder falls under the policy of the outer one. -/
theorem slashedPolicies_not_longest :
    ¬ ∀ policies : SyncPolicies, PoliciesHold symbolic policies := by
  intro hall
  have hfound : findSyncPolicyForPath slashedPolicies.rows "docs/tax/2024.pdf" =
      some (policyRow 1 "docs/////////" "LOCAL") := by decide
  obtain ⟨-, -, hlongest⟩ := ((hall slashedPolicies).longest "docs/tax/2024.pdf").found _ hfound
  have hle := hlongest (policyRow 2 "docs/tax" "PARANOIA") (by decide) (by decide)
  exact absurd hle (by decide)

end OmniDrive
