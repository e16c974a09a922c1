import Mathlib.Data.List.Perm.Subperm
import Std.Data.String.ToNat
import OmniDrive.Crypto.SymbolicChunks
import OmniDrive.Storage.ConflictCopy
import OmniDrive.Storage.Trash

/-!
# Names of files

Creating, updating, deleting and restoring files keeps the names below each parent apart. Two
constraints of the schema do so: one between all rows below a parent that has a row itself, and one
between the rows that are not deleted.
-/

namespace OmniDrive

open StatementProgram Tables

variable {P : Primitives} {ε α : Type}

/-- Run a program of the trash on the file tables. -/
def onTrash (p : TrashProg ε α) : FileProg P ε α :=
  p.zoom (fun w => { db := w.db, now := w.now }) fun t w => { w with db := t.db, now := t.now }

theorem run_onTrash (p : TrashProg ε α) (w : FileWorld P) :
    (onTrash p).run w = ((p.run { db := w.db, now := w.now }).1,
      { w with
        db := (p.run { db := w.db, now := w.now }).2.db
        now := (p.run { db := w.db, now := w.now }).2.now }) :=
  Prog.run_zoom (fun w : FileWorld P => ({ db := w.db, now := w.now } : TrashWorld))
    (fun t w => { w with db := t.db, now := t.now }) (fun _ _ => rfl) (fun _ _ _ => rfl)
    (fun _ => rfl) p w

namespace Db

/-- The inode of a path that is not deleted. -/
def inodeByPath (parentId : Option ℤ) (name : String) (db : FileDb) : Option InodeRecord :=
  db.inodes.find? fun i => i.parentId = parentId && i.name = name && i.deletedAt.isNone

def getInodeByPath (parentId : Option ℤ) (name : String) :
    FileProg P DbError (Option InodeRecord) :=
  selectFiles (inodeByPath parentId name)

def setSize (inodeId size : ℤ) (mtime : Option ℤ) (db : FileDb) : FileDb :=
  { db with
    inodes := updateWhere (·.id = inodeId) (fun i => { i with size, mtime }) db.inodes }

/-- Add a row under the next automatic `id`. -/
def appendInodeAt (parentId : Option ℤ) (name kind : String) (size : ℤ) (mtime : Option ℤ)
    (db : FileDb) : FileDb :=
  { db with
    inodes := db.inodes ++ [{ id := db.inodeSequence + 1, parentId, name, kind, size, mtime }]
    inodeSequence := db.inodeSequence + 1 }

/-- The insertion of an upsert, which the two constraints can refuse. -/
def insertInode (parentId : Option ℤ) (name kind : String) (size : ℤ) (mtime : Option ℤ) :
    FileProg P DbError ℤ := do
  let created ← Prog.execReturning
    (fun w => if nameTaken parentId name w.db then w
      else { w with db := appendInodeAt parentId name kind size mtime w.db })
    fun w => if nameTaken parentId name w.db then none else some (w.db.inodeSequence + 1)
  Prog.ofOption .uniqueViolation created

def upsertInode (parentId : Option ℤ) (name kind : String) (size : ℤ) (mtime : Option ℤ) :
    FileProg P DbError ℤ := do
  Prog.ofExcept (validateInodeKind kind)
  match ← getInodeByPath parentId name with
  | some existing =>
    if existing.kind ≠ kind then
      .fail (.invalidArgument
        s!"inode kind mismatch for '{name}': existing={existing.kind}, new={kind}")
    else
      writeFiles (setSize existing.id size mtime)
      pure existing.id
  | none => insertInode parentId name kind size mtime

end Db

open Trash

/-- A call on the inodes. -/
inductive InodeCall where
  | create (parentId : Option ℤ) (name kind : String) (size : ℤ)
  | upsert (parentId : Option ℤ) (name kind : String) (size : ℤ) (mtime : Option ℤ)
  | softDelete (inodeId nowMs : ℤ)
  | restore (inodeId : ℤ)
  deriving DecidableEq, Repr

/-- The database refuses a row below a parent without a row. -/
def parentAllowed (parentId : Option ℤ) (db : FileDb) : Bool :=
  parentId.all fun parent => db.inodes.any (·.id = parent)

/-- What a call leaves; a restore looks at one name more than there are inodes. -/
def InodeCall.step (call : InodeCall) (w : FileWorld P) : FileWorld P :=
  match call with
  | .create parentId name kind size =>
    if parentAllowed parentId w.db then ((Db.createInode parentId name kind size).run w).2 else w
  | .upsert parentId name kind size mtime =>
    if parentAllowed parentId w.db then ((Db.upsertInode parentId name kind size mtime).run w).2
    else w
  | .softDelete inodeId nowMs => w.withDb (softDeleteInode inodeId nowMs w.db)
  | .restore inodeId =>
    ((onTrash (restoreSoftDeletedInode (w.db.inodes.length + 1) inodeId)).run w).2

def InodeCall.run (calls : List InodeCall) (w : FileWorld P) : FileWorld P :=
  calls.foldl (fun w call => call.step w) w

/-! ## Names of a restore -/

namespace Names

/-- Stem and extension of a name; without both the whole name is the stem. -/
def nameParts (original : String) : String × String :=
  match rsplitOnce original with
  | some (stem, ext) => if stem ≠ "" ∧ ext ≠ "" then (stem, "." ++ ext) else (original, "")
  | none => (original, "")

/-- What a restore puts between them. -/
def restoreMark (attempt : ℕ) : List Char :=
  if attempt = 1 then " (restored)".toList
  else " (restored ".toList ++ (Nat.repr attempt).toList ++ [')']

theorem toList_restoredName (original : String) (attempt : ℕ) :
    (restoredName original attempt).toList =
      (nameParts original).1.toList ++ (restoreMark attempt ++ (nameParts original).2.toList) := by
  have hname : restoredName original attempt =
      if attempt = 1 then (nameParts original).1 ++ " (restored)" ++ (nameParts original).2
      else (nameParts original).1 ++ " (restored " ++ toString attempt ++ ")" ++
        (nameParts original).2 := rfl
  rw [hname, restoreMark]
  split <;> simp

/-- The parts hold all characters of the name. -/
theorem length_nameParts (original : String) : original.toList.length ≤
    (nameParts original).1.toList.length + (nameParts original).2.toList.length := by
  rw [nameParts, rsplitOnce]
  have hext : ((original.toList.reverse.takeWhile (· ≠ '.')).reverse).length ≤
      original.toList.length := by
    rw [List.length_reverse]
    exact (List.takeWhile_sublist _).length_le.trans_eq (List.length_reverse)
  split
  · rename_i hsplit
    split at hsplit
    · cases hsplit
    · cases hsplit
      split
      · simp only [String.toList_append, String.toList_ofList, List.length_append,
          List.length_take]
        have hdot : (".".toList).length = 1 := rfl
        omega
      · simp
  · simp

theorem restoreMark_injective : Function.Injective restoreMark := by
  intro a b h
  by_cases ha : a = 1
  · by_cases hb : b = 1
    · rw [ha, hb]
    · rw [restoreMark, restoreMark, if_pos ha, if_neg hb] at h
      have hchar := congrArg (fun l => l[10]?) h
      simp at hchar
  · by_cases hb : b = 1
    · rw [restoreMark, restoreMark, if_neg ha, if_pos hb] at h
      have hchar := congrArg (fun l => l[10]?) h
      simp at hchar
    · rw [restoreMark, restoreMark, if_neg ha, if_neg hb, List.append_assoc, List.append_assoc,
        List.append_cancel_left_eq, List.append_cancel_right_eq] at h
      exact Nat.repr_injective (String.toList_injective h)

/-- The names that a restore looks at, one after the other. -/
def nameAt (original : String) : ℕ → String
  | 0 => original
  | attempt + 1 => restoredName original (attempt + 1)

theorem nameAt_injective (original : String) : Function.Injective (nameAt original) := by
  have hmark : ∀ attempt, original.toList ≠ (restoredName original attempt).toList := by
    intro attempt h
    have hlength := congrArg List.length h
    rw [toList_restoredName, List.length_append, List.length_append] at hlength
    have hparts := length_nameParts original
    have hpos : 0 < (restoreMark attempt).length := by
      rw [restoreMark]
      split <;> simp
    omega
  intro a b h
  cases a with
  | zero =>
    cases b with
    | zero => rfl
    | succ b => exact absurd (congrArg String.toList h) (hmark (b + 1))
  | succ a =>
    cases b with
    | zero => exact absurd (congrArg String.toList h).symm (hmark (a + 1))
    | succ b =>
      have hlist := congrArg String.toList h
      simp only [nameAt] at hlist
      rw [toList_restoredName, toList_restoredName, List.append_cancel_left_eq,
        List.append_cancel_right_eq] at hlist
      exact restoreMark_injective hlist

/-- The search stops at the first name that is free, if it may look that far. By induction on the
tries that are left. -/
theorem run_searchName {inode : InodeRecord} {w : TrashWorld} {m : ℕ}
    (hfree : pathTaken inode.parentId (nameAt inode.name m) w.db = false) (tries k : ℕ)
    (hkm : k ≤ m) (hm : m < k + tries)
    (htaken : ∀ j, k ≤ j → j < m → pathTaken inode.parentId (nameAt inode.name j) w.db = true) :
    (searchName inode tries (nameAt inode.name k) (k + 1)).run w =
      (.ok (nameAt inode.name m), w) := by
  induction tries generalizing k with
  | zero => omega
  | succ tries ih =>
    have hquery : (Prog.query fun w : TrashWorld =>
        pathTaken inode.parentId (nameAt inode.name k) w.db : TrashProg DbError Bool).run w =
          (.ok (pathTaken inode.parentId (nameAt inode.name k) w.db), w) := rfl
    rw [searchName, Prog.run_bind_of_ok hquery]
    rcases Nat.eq_or_lt_of_le hkm with rfl | hlt
    · rw [hfree]
      rfl
    · rw [htaken k le_rfl hlt, if_pos rfl]
      exact ih (k + 1) hlt (by omega) fun j hj => htaken j (by omega)

/-- One name more than there are inodes, and one of them is free. -/
theorem exists_free (parentId : Option ℤ) (original : String) (db : FileDb) :
    ∃ m, m < db.inodes.length + 1 ∧ pathTaken parentId (nameAt original m) db = false ∧
      ∀ j, j < m → pathTaken parentId (nameAt original j) db = true := by
  have hsome : ∃ m, pathTaken parentId (nameAt original m) db = false ∧
      m < db.inodes.length + 1 := by
    by_contra hnone
    have hsubset : (List.range (db.inodes.length + 1)).map (nameAt original) ⊆
        db.inodes.map (·.name) := by
      intro name hname
      obtain ⟨m, hm, rfl⟩ := List.mem_map.mp hname
      have htaken : pathTaken parentId (nameAt original m) db = true := by
        rw [← Bool.not_eq_false]
        exact fun hfree => hnone ⟨m, hfree, List.mem_range.mp hm⟩
      obtain ⟨i, hi, hmatch⟩ := List.any_eq_true.mp htaken
      rw [Bool.and_eq_true, Bool.and_eq_true, decide_eq_true_eq, decide_eq_true_eq] at hmatch
      exact List.mem_map.mpr ⟨i, hi, hmatch.1.2⟩
    have hnodup := (List.nodup_range (n := db.inodes.length + 1)).map (nameAt_injective original)
    have hle := (List.subperm_of_subset hnodup hsubset).length_le
    rw [List.length_map, List.length_range, List.length_map] at hle
    omega
  obtain ⟨hfree, hlt⟩ := Nat.find_spec hsome
  refine ⟨Nat.find hsome, hlt, hfree, fun j hj => ?_⟩
  rw [← Bool.not_eq_false]
  exact fun hfree' => Nat.find_min hsome hj ⟨hfree', hj.trans hlt⟩

/-! ## The two constraints -/

/-- Two rows that the schema does not let stand next to each other. -/
def Clash (i j : InodeRecord) : Prop :=
  i.name = j.name ∧ ((i.parentId.isSome ∧ i.parentId = j.parentId) ∨
    (i.deletedAt = none ∧ j.deletedAt = none ∧ i.parentId.getD (-1) = j.parentId.getD (-1)))

theorem Clash.symm {i j : InodeRecord} (h : Clash i j) : Clash j i := by
  obtain ⟨hname, ⟨hsome, hparent⟩ | ⟨hi, hj, hparent⟩⟩ := h
  · exact ⟨hname.symm, .inl ⟨hparent ▸ hsome, hparent.symm⟩⟩
  · exact ⟨hname.symm, .inr ⟨hj, hi, hparent.symm⟩⟩

/-- The rows have their own identifiers, which are positive like those of their parents, and no two
rows clash. -/
structure Inv (db : FileDb) : Prop where
  ids : (db.inodes.map (·.id)).Nodup
  bound : ∀ i ∈ db.inodes, 0 < i.id ∧ i.id ≤ db.inodeSequence
  sequence : 0 ≤ db.inodeSequence
  parents : ∀ i ∈ db.inodes, ∀ p, i.parentId = some p → 0 < p
  apart : ∀ i ∈ db.inodes, ∀ j ∈ db.inodes, i.id ≠ j.id → ¬ Clash i j

variable {db : FileDb} {parentId : Option ℤ} {name kind : String} {size : ℤ} {mtime : Option ℤ}

/-- A free name clashes with no row. -/
theorem not_clash_of_free (hfree : Db.nameTaken parentId name db = false) {i : InodeRecord}
    (hi : i ∈ db.inodes) (n : ℤ) (time : Option ℤ) :
    ¬ Clash i { id := n, parentId, name, kind, size, mtime := time } := by
  rintro ⟨hname, hclash⟩
  rw [Db.nameTaken, List.any_eq_false] at hfree
  apply hfree i hi
  rw [Bool.and_eq_true, Bool.or_eq_true, Bool.and_eq_true, Bool.and_eq_true]
  simp only [decide_eq_true_eq, Option.isNone_iff_eq_none]
  refine ⟨hname, ?_⟩
  rcases hclash with ⟨hsome, hparent⟩ | ⟨hi', -, hparent⟩
  · rw [hparent] at hsome
    exact .inl ⟨hsome, hparent⟩
  · exact .inr ⟨hi', hparent⟩

theorem Inv.append (h : Inv db) (hfree : Db.nameTaken parentId name db = false)
    (hparent : ∀ p, parentId = some p → 0 < p) (kind : String) (size : ℤ) (mtime : Option ℤ) :
    Inv (Db.appendInodeAt parentId name kind size mtime db) where
  ids := by
    apply nodup_append_fresh h.ids
    intro i hi hid
    have hle := (h.bound i hi).2
    change i.id = db.inodeSequence + 1 at hid
    omega
  bound i hi := by
    change 0 < i.id ∧ i.id ≤ db.inodeSequence + 1
    rcases List.mem_append.mp hi with hold | hnew
    · obtain ⟨hpos, hle⟩ := h.bound i hold
      exact ⟨hpos, hle.trans (Int.le_add_one le_rfl)⟩
    · rw [List.mem_singleton.mp hnew]
      exact ⟨Int.lt_add_one_of_le h.sequence, le_rfl⟩
  sequence := h.sequence.trans (Int.le_add_one le_rfl)
  parents i hi := by
    rcases List.mem_append.mp hi with hold | hnew
    · exact h.parents i hold
    · rw [List.mem_singleton.mp hnew]
      exact hparent
  apart i hi j hj hij := by
    rcases List.mem_append.mp hi with hi | hi
    · rcases List.mem_append.mp hj with hj | hj
      · exact h.apart i hi j hj hij
      · rw [List.mem_singleton.mp hj]
        exact not_clash_of_free hfree hi _ _
    · rcases List.mem_append.mp hj with hj | hj
      · rw [List.mem_singleton.mp hi]
        exact fun hclash => not_clash_of_free hfree hj _ _ hclash.symm
      · rw [List.mem_singleton.mp hi, List.mem_singleton.mp hj] at hij
        exact absurd rfl hij

/-- An update keeps the rows apart if its rows clash with no others. -/
theorem Inv.update (h : Inv db) {p : InodeRecord → Bool} {f : InodeRecord → InodeRecord}
    (hid : ∀ i, (f i).id = i.id) (hparent : ∀ i, (f i).parentId = i.parentId)
    (hclash : ∀ i ∈ db.inodes, ∀ j ∈ db.inodes, i.id ≠ j.id → p i = true →
      ¬ Clash (f i) (if p j then f j else j)) :
    Inv { db with inodes := updateWhere p f db.inodes } where
  ids := by
    rw [map_updateWhere hid]
    exact h.ids
  bound i hi := by
    obtain ⟨old, hold, rfl⟩ := mem_updateWhere.mp hi
    have hle := h.bound old hold
    split
    · rw [hid]
      exact hle
    · exact hle
  sequence := h.sequence
  parents i hi := by
    obtain ⟨old, hold, rfl⟩ := mem_updateWhere.mp hi
    have hpos := h.parents old hold
    split
    · rw [hparent]
      exact hpos
    · exact hpos
  apart i hi j hj hij := by
    obtain ⟨i, hold, rfl⟩ := mem_updateWhere.mp hi
    obtain ⟨j, hold', rfl⟩ := mem_updateWhere.mp hj
    have hids : i.id ≠ j.id := by
      have hkeep : ∀ r : InodeRecord, (if p r then f r else r).id = r.id := by
        intro r
        split
        · exact hid r
        · rfl
      rwa [hkeep, hkeep] at hij
    by_cases hpi : p i = true
    · rw [if_pos hpi]
      exact hclash i hold j hold' hids hpi
    · by_cases hpj : p j = true
      · have hback := hclash j hold' i hold hids.symm hpj
        rw [if_neg hpi] at hback ⊢
        rw [if_pos hpj]
        exact fun hc => hback hc.symm
      · rw [if_neg hpi, if_neg hpj]
        exact h.apart i hold j hold' hids

/-! ## What a call keeps -/

theorem Inv.setSize (h : Inv db) (inodeId size : ℤ) (mtime : Option ℤ) :
    Inv (Db.setSize inodeId size mtime db) := by
  refine h.update ?_ ?_ ?_
  · exact fun _ => rfl
  · exact fun _ => rfl
  intro i hi j hj hij _
  split <;> exact h.apart i hi j hj hij

theorem Inv.softDelete (h : Inv db) (inodeId nowMs : ℤ) :
    Inv (softDeleteInode inodeId nowMs db) := by
  refine h.update ?_ ?_ ?_
  · exact fun _ => rfl
  · exact fun _ => rfl
  rintro i hi j hj hij - ⟨hname, ⟨hsome, hparent⟩ | ⟨hlive, -⟩⟩
  · split at hname <;> split at hparent <;> exact h.apart i hi j hj hij ⟨hname, .inl ⟨hsome, hparent⟩⟩
  · cases hlive

theorem inodeOf_of_mem (h : Inv db) {i : InodeRecord} (hi : i ∈ db.inodes) :
    inodeOf i.id db = some i :=
  find?_of_unique InodeRecord.id hi fun _ hrow hid => List.inj_on_of_nodup_map h.ids hrow hi hid

/-- A restore that the constraints let through keeps the rows apart. -/
theorem Inv.undelete {w : TrashWorld} (h : Inv w.db) {inodeId : ℤ} {name : String}
    (hallowed : restoreRefused inodeId name w = none) : Inv (undelete inodeId name w.db) := by
  refine h.update ?_ ?_ ?_
  · exact fun _ => rfl
  · exact fun _ => rfl
  intro i hi j hj hij hid hclash
  rw [decide_eq_true_eq] at hid
  have hother : j.id ≠ inodeId := hid ▸ hij.symm
  rw [if_neg (by rwa [decide_eq_true_eq])] at hclash
  have hrow := inodeOf_of_mem h hi
  rw [hid] at hrow
  rw [restoreRefused, hrow] at hallowed
  dsimp only at hallowed
  split at hallowed
  · cases hallowed
  · rename_i hnone
    apply hnone
    rw [List.any_eq_true]
    refine ⟨j, hj, ?_⟩
    obtain ⟨hname, hcase⟩ := hclash
    simp only [Bool.and_eq_true, Bool.or_eq_true, decide_eq_true_eq, Option.isNone_iff_eq_none]
    refine ⟨⟨hother, hname.symm⟩, ?_⟩
    rcases hcase with ⟨hsome, hparent⟩ | ⟨-, hlive, hparent⟩
    · exact .inl ⟨hparent.symm, hparent ▸ hsome⟩
    · exact .inr ⟨hparent.symm, hlive⟩

theorem keeps_createInode (hparent : ∀ p, parentId = some p → 0 < p) (name kind : String)
    (size : ℤ) :
    (Db.createInode parentId name kind size : FileProg P DbError ℤ).Keeps fun w => Inv w.db := by
  apply (Prog.Keeps.ofExcept _).bind
  intro _
  refine Prog.Keeps.bind (Prog.Keeps.execReturning _ fun w hw => ?_) fun _ => Prog.Keeps.ofOption _ _
  split
  · exact hw
  · rename_i hfree
    exact hw.append (Bool.not_eq_true _ ▸ hfree) hparent kind size none

theorem keeps_upsertInode (hparent : ∀ p, parentId = some p → 0 < p) (name kind : String)
    (size : ℤ) (mtime : Option ℤ) :
    (Db.upsertInode parentId name kind size mtime : FileProg P DbError ℤ).Keeps
      fun w => Inv w.db := by
  apply (Prog.Keeps.ofExcept _).bind
  intro _
  apply (Prog.Keeps.query _).bind
  intro existing
  cases existing with
  | none =>
    refine Prog.Keeps.bind (Prog.Keeps.execReturning _ fun w hw => ?_) fun _ =>
      Prog.Keeps.ofOption _ _
    split
    · exact hw
    · rename_i hfree
      exact hw.append (Bool.not_eq_true _ ▸ hfree) hparent kind size mtime
  | some existing =>
    dsimp only
    split
    · trivial
    · have hset : (writeFiles (Db.setSize existing.id size mtime) : FileProg P DbError Unit).Keeps
          fun w => Inv w.db := Prog.Keeps.exec fun w hw => hw.setSize existing.id size mtime
      exact hset.bind fun _ => trivial

theorem keeps_searchName (inode : InodeRecord) (tries : ℕ) (name : String) (attempt : ℕ) :
    (searchName inode tries name attempt).Keeps fun w : TrashWorld => Inv w.db := by
  induction tries generalizing name attempt with
  | zero => trivial
  | succ tries ih =>
    apply (Prog.Keeps.query _).bind
    intro taken
    cases taken with
    | true => exact ih _ _
    | false => trivial

theorem keeps_restoreSoftDeletedInode (attempts : ℕ) (inodeId : ℤ) :
    (restoreSoftDeletedInode attempts inodeId).Keeps fun w : TrashWorld => Inv w.db := by
  apply (Prog.Keeps.query _).bind
  intro inode
  apply (Prog.Keeps.ofOption _ _).bind
  intro inode
  apply (keeps_searchName inode attempts inode.name 1).bind
  intro name
  have hundelete : (undeleteStmt inodeId name).Keeps fun w : TrashWorld => Inv w.db :=
    Prog.Keeps.execUnless fun w hw hallowed => hw.undelete hallowed
  exact hundelete.bind fun _ => trivial

theorem Inv.parent_pos (h : Inv db) (hallowed : parentAllowed parentId db = true) :
    ∀ p, parentId = some p → 0 < p := by
  rintro p rfl
  obtain ⟨i, hi, hid⟩ := List.any_eq_true.mp hallowed
  rw [decide_eq_true_eq] at hid
  exact hid ▸ (h.bound i hi).1

theorem Inv.step (call : InodeCall) {w : FileWorld P} (h : Inv w.db) : Inv (call.step w).db := by
  cases call with
  | create parentId name kind size =>
    rw [InodeCall.step]
    split
    · rename_i hallowed
      exact (keeps_createInode (h.parent_pos hallowed) name kind size).run h
    · exact h
  | upsert parentId name kind size mtime =>
    rw [InodeCall.step]
    split
    · rename_i hallowed
      exact (keeps_upsertInode (h.parent_pos hallowed) name kind size mtime).run h
    · exact h
  | softDelete inodeId nowMs => exact h.softDelete inodeId nowMs
  | restore inodeId =>
    rw [InodeCall.step, run_onTrash]
    exact (keeps_restoreSoftDeletedInode _ inodeId).run h

/-- The rows stay apart over every run. -/
theorem Inv.run (calls : List InodeCall) {w : FileWorld P} (h : Inv w.db) :
    Inv (InodeCall.run calls w).db := by
  induction calls generalizing w with
  | nil => exact h
  | cons call rest ih => exact ih (h.step call)

/-- No inode has been created yet. -/
theorem Inv.fresh : Inv {} where
  ids := List.nodup_nil
  bound _ hi := nomatch hi
  sequence := le_rfl
  parents _ hi := nomatch hi
  apart _ hi := nomatch hi

/-- Rows that are not deleted clash if they have one path. -/
theorem clash_of_live {i j : InodeRecord} (hname : i.name = j.name)
    (hparent : i.parentId = j.parentId) (hi : i.deletedAt = none) (hj : j.deletedAt = none) :
    Clash i j :=
  ⟨hname, .inr ⟨hi, hj, congrArg (·.getD (-1)) hparent⟩⟩

/-- The index on live rows compares parents: no parent has the number that stands for the root. -/
theorem Inv.parent_eq (h : Inv db) {i j : InodeRecord} (hi : i ∈ db.inodes) (hj : j ∈ db.inodes)
    (heq : i.parentId.getD (-1) = j.parentId.getD (-1)) : i.parentId = j.parentId := by
  have hposi := h.parents i hi
  have hposj := h.parents j hj
  cases hpi : i.parentId with
  | none =>
    cases hpj : j.parentId with
    | none => rfl
    | some q =>
      have hpos := hposj q hpj
      rw [hpi, hpj] at heq
      change -1 = q at heq
      omega
  | some p =>
    have hpos := hposi p hpi
    cases hpj : j.parentId with
    | none =>
      rw [hpi, hpj] at heq
      change p = -1 at heq
      omega
    | some q =>
      rw [hpi, hpj] at heq
      exact congrArg some heq

/-! ## Deleting and restoring a file -/

/-- At most one row that is not deleted has a path. -/
def LiveNamesUnique (db : FileDb) : Prop :=
  ∀ i ∈ db.inodes, ∀ j ∈ db.inodes, i.deletedAt = none → j.deletedAt = none →
    i.parentId = j.parentId → i.name = j.name → i = j

/-- When the file is in the trash, an upsert of its path succeeds with a fresh inode. -/
def NameFreed (w : FileWorld P) (i : InodeRecord) : Prop :=
  ∀ nowMs kind size mtime, Db.validateInodeKind kind = .ok () →
    ∃ inodeId w', (Db.upsertInode i.parentId i.name kind size mtime).run
        ((InodeCall.softDelete i.id nowMs).step w) = (.ok inodeId, w') ∧
      ∀ r ∈ w.db.inodes, r.id ≠ inodeId

/-- A restore of the file ends and succeeds, however long it may search, under a name that no other
row of its parent has that is not deleted. -/
def RestoreSucceeds (w : FileWorld P) (i : InodeRecord) : Prop :=
  ∃ name w',
    (∀ attempts, w.db.inodes.length < attempts →
      (onTrash (restoreSoftDeletedInode attempts i.id)).run w = (.ok name, w')) ∧
    (∃ row ∈ w'.db.inodes, row.id = i.id ∧ row.parentId = i.parentId ∧ row.name = name ∧
      row.deletedAt = none) ∧
    ∀ j ∈ w'.db.inodes, j.id ≠ i.id → j.deletedAt = none → j.parentId = i.parentId → j.name ≠ name

theorem Inv.liveNamesUnique (h : Inv db) : LiveNamesUnique db := by
  intro i hi j hj hlivei hlivej hparent hname
  by_contra hne
  apply h.apart i hi j hj _ (clash_of_live hname hparent hlivei hlivej)
  exact fun hid => hne (List.inj_on_of_nodup_map h.ids hi hj hid)

section Delete

variable {w : FileWorld P} {i : InodeRecord}

/-- The row of the deleted file keeps its name and its parent. -/
theorem mem_softDelete (hi : i ∈ db.inodes) (hkind : i.kind = "FILE") (hlive : i.deletedAt = none)
    (nowMs : ℤ) : { i with deletedAt := some nowMs } ∈ (softDeleteInode i.id nowMs db).inodes := by
  apply mem_updateWhere.mpr
  refine ⟨i, hi, ?_⟩
  rw [if_pos]
  rw [hkind, hlive]
  simp

/-- A live row after the deletion is another row that was live before. -/
theorem live_of_softDelete (h : Inv db) (hi : i ∈ db.inodes) (hkind : i.kind = "FILE")
    (hlive : i.deletedAt = none) {nowMs : ℤ} {r : InodeRecord}
    (hr : r ∈ (softDeleteInode i.id nowMs db).inodes) (hr' : r.deletedAt = none) :
    r ∈ db.inodes ∧ r.id ≠ i.id := by
  obtain ⟨old, hold, rfl⟩ := mem_updateWhere.mp hr
  by_cases hsel : (old.id = i.id && old.kind = "FILE" && old.deletedAt.isNone) = true
  · rw [if_pos hsel] at hr'
    cases hr'
  · rw [if_neg hsel] at hr' ⊢
    refine ⟨hold, fun hid => hsel ?_⟩
    have hold' := List.inj_on_of_nodup_map h.ids hold hi hid
    rw [hold', hkind, hlive]
    simp

/-- No live row has the path of the deleted file. -/
theorem not_live_softDelete (h : Inv db) (hi : i ∈ db.inodes) (hkind : i.kind = "FILE")
    (hlive : i.deletedAt = none) {nowMs : ℤ} {r : InodeRecord}
    (hr : r ∈ (softDeleteInode i.id nowMs db).inodes) (hname : r.name = i.name)
    (hparent : r.parentId.getD (-1) = i.parentId.getD (-1)) : r.deletedAt ≠ none := by
  intro hr'
  obtain ⟨hmem, hid⟩ := live_of_softDelete h hi hkind hlive hr hr'
  exact h.apart r hmem i hi hid ⟨hname, .inr ⟨hr', hlive, hparent⟩⟩

theorem inodeByPath_softDelete (h : Inv db) (hi : i ∈ db.inodes) (hkind : i.kind = "FILE")
    (hlive : i.deletedAt = none) (nowMs : ℤ) :
    Db.inodeByPath i.parentId i.name (softDeleteInode i.id nowMs db) = none := by
  rw [Db.inodeByPath, List.find?_eq_none]
  intro r hr hmatch
  rw [Bool.and_eq_true, Bool.and_eq_true, decide_eq_true_eq, decide_eq_true_eq,
    Option.isNone_iff_eq_none] at hmatch
  exact not_live_softDelete h hi hkind hlive hr hmatch.1.2
    (congrArg (·.getD (-1)) hmatch.1.1) hmatch.2

/-- The constraints let the name of the deleted file be used again at the root only. -/
theorem nameTaken_softDelete (h : Inv db) (hi : i ∈ db.inodes) (hkind : i.kind = "FILE")
    (hlive : i.deletedAt = none) (nowMs : ℤ) :
    Db.nameTaken i.parentId i.name (softDeleteInode i.id nowMs db) = i.parentId.isSome := by
  cases hparent : i.parentId with
  | none =>
    rw [Db.nameTaken, Option.isSome_none, List.any_eq_false]
    intro r hr hmatch
    simp only [Bool.and_eq_true, Bool.or_eq_true, decide_eq_true_eq, Bool.false_eq_true, false_and,
      false_or, Option.isNone_iff_eq_none] at hmatch
    exact not_live_softDelete h hi hkind hlive hr hmatch.1 (hparent ▸ hmatch.2.2) hmatch.2.1
  | some p =>
    rw [Db.nameTaken, Option.isSome_some, List.any_eq_true]
    refine ⟨_, mem_softDelete hi hkind hlive nowMs, ?_⟩
    simp [hparent]

/-- An upsert of the path of the deleted file inserts a row, unless the file lies below a parent. -/
theorem run_upsertInode_softDelete (h : Inv w.db) (hi : i ∈ w.db.inodes) (hkind : i.kind = "FILE")
    (hlive : i.deletedAt = none) (nowMs : ℤ) {kind : String}
    (hvalid : Db.validateInodeKind kind = .ok ()) (size : ℤ) (mtime : Option ℤ) :
    ((Db.upsertInode i.parentId i.name kind size mtime).run
      ((InodeCall.softDelete i.id nowMs).step w)).1 =
        if i.parentId.isSome then .error .uniqueViolation else .ok (w.db.inodeSequence + 1) := by
  have hlookup : (Db.getInodeByPath i.parentId i.name).run
      ((InodeCall.softDelete i.id nowMs).step w) =
        (.ok none, (InodeCall.softDelete i.id nowMs).step w) := by
    rw [Db.getInodeByPath, run_selectFiles]
    exact Prod.ext (congrArg Except.ok (inodeByPath_softDelete h hi hkind hlive nowMs)) rfl
  have htaken := nameTaken_softDelete h hi hkind hlive nowMs
  rw [Db.upsertInode, hvalid, Prog.ofExcept_ok, Prog.ret_bind, Prog.run_bind_of_ok hlookup]
  change ((Prog.ofOption DbError.uniqueViolation
    (if Db.nameTaken i.parentId i.name (softDeleteInode i.id nowMs w.db) then none
      else some (w.db.inodeSequence + 1))).run _).1 = _
  rw [htaken]
  cases i.parentId.isSome <;> rfl

theorem nameFreed_iff (h : Inv w.db) (hi : i ∈ w.db.inodes) (hkind : i.kind = "FILE")
    (hlive : i.deletedAt = none) : NameFreed w i ↔ i.parentId = none := by
  constructor
  · intro hfreed
    obtain ⟨inodeId, w', hrun, -⟩ := hfreed 0 "FILE" 0 none rfl
    have houtcome := run_upsertInode_softDelete h hi hkind hlive 0
      (show Db.validateInodeKind "FILE" = .ok () from rfl) 0 none
    rw [hrun] at houtcome
    rw [← Option.not_isSome_iff_eq_none]
    intro hsome
    rw [if_pos hsome] at houtcome
    cases houtcome
  · intro hroot nowMs kind size mtime hvalid
    have houtcome := run_upsertInode_softDelete h hi hkind hlive nowMs hvalid size mtime
    rw [if_neg (by rw [hroot]; exact Bool.false_ne_true)] at houtcome
    refine ⟨w.db.inodeSequence + 1, _, Prod.ext houtcome rfl, fun r hr => ?_⟩
    have hle := (h.bound r hr).2
    omega

end Delete

section Restore

variable {w : FileWorld P} {i : InodeRecord}

/-- Some live row has the path. -/
theorem exists_of_pathTaken (h : pathTaken parentId name db = true) :
    ∃ r ∈ db.inodes, r.parentId = parentId ∧ r.name = name ∧ r.deletedAt = none := by
  obtain ⟨r, hr, hmatch⟩ := List.any_eq_true.mp h
  rw [Bool.and_eq_true, Bool.and_eq_true, decide_eq_true_eq, decide_eq_true_eq,
    Option.isNone_iff_eq_none] at hmatch
  exact ⟨r, hr, hmatch.1.1, hmatch.1.2, hmatch.2⟩

theorem not_live_of_pathFree (h : pathTaken parentId name db = false) {r : InodeRecord}
    (hr : r ∈ db.inodes) (hparent : r.parentId = parentId) (hname : r.name = name) :
    r.deletedAt ≠ none := by
  intro hlive
  rw [pathTaken, List.any_eq_false] at h
  apply h r hr
  rw [Bool.and_eq_true, Bool.and_eq_true, decide_eq_true_eq, decide_eq_true_eq,
    Option.isNone_iff_eq_none]
  exact ⟨⟨hparent, hname⟩, hlive⟩

/-- The constraints let the first free name through. Below a parent that is the old name, since the
row has kept it; at the root only live rows count. -/
theorem restoreRefused_firstFree (h : Inv db) (hi : i ∈ db.inodes) {m : ℕ}
    (hfree : pathTaken i.parentId (nameAt i.name m) db = false)
    (htaken : ∀ j, j < m → pathTaken i.parentId (nameAt i.name j) db = true)
    (hdeleted : i.deletedAt ≠ none) (now : ℤ) :
    restoreRefused i.id (nameAt i.name m) { db, now } = none := by
  have hold : i.parentId.isSome = true → nameAt i.name m = i.name := by
    intro hsome
    cases m with
    | zero => rfl
    | succ m =>
      obtain ⟨r, hr, hparent, hname, hlive⟩ := exists_of_pathTaken (htaken 0 (Nat.succ_pos m))
      have hid : r.id ≠ i.id := fun hid =>
        hdeleted (List.inj_on_of_nodup_map h.ids hr hi hid ▸ hlive)
      exact absurd ⟨hname, .inl ⟨hparent ▸ hsome, hparent⟩⟩ (h.apart r hr i hi hid)
  rw [restoreRefused, inodeOf_of_mem h hi]
  dsimp only
  rw [if_neg]
  intro hany
  obtain ⟨j, hj, hmatch⟩ := List.any_eq_true.mp hany
  simp only [Bool.and_eq_true, Bool.or_eq_true, decide_eq_true_eq, Option.isNone_iff_eq_none]
    at hmatch
  obtain ⟨⟨hid, hname⟩, ⟨hparent, hsome⟩ | ⟨hparent, hlive⟩⟩ := hmatch
  · rw [hold (hparent ▸ hsome)] at hname
    exact h.apart j hj i hi hid ⟨hname, .inl ⟨hsome, hparent⟩⟩
  · exact not_live_of_pathFree hfree hj (h.parent_eq hj hi hparent) hname hlive

theorem restoreSucceeds (h : Inv w.db) (hi : i ∈ w.db.inodes) (hdeleted : i.deletedAt ≠ none) :
    RestoreSucceeds w i := by
  obtain ⟨m, hm, hfree, htaken⟩ := exists_free i.parentId i.name w.db
  have hallowed := restoreRefused_firstFree h hi hfree htaken hdeleted w.now
  have hinv : Inv (undelete i.id (nameAt i.name m) w.db) :=
    Inv.undelete (w := { db := w.db, now := w.now }) h hallowed
  have hrow : { i with deletedAt := none, name := nameAt i.name m } ∈
      (undelete i.id (nameAt i.name m) w.db).inodes :=
    mem_updateWhere.mpr ⟨i, hi, if_pos (decide_eq_true rfl)⟩
  refine ⟨nameAt i.name m, w.withDb (undelete i.id (nameAt i.name m) w.db), ?_, ?_, ?_⟩
  · intro attempts hattempts
    have hsearch : (searchName i attempts i.name 1).run { db := w.db, now := w.now } =
        (.ok (nameAt i.name m), { db := w.db, now := w.now }) :=
      run_searchName hfree attempts 0 (Nat.zero_le m) (by omega) fun j _ hj => htaken j hj
    have hfinish : (finishRestore i.id (nameAt i.name m)).run { db := w.db, now := w.now } =
        (.ok (nameAt i.name m),
          { db := undelete i.id (nameAt i.name m) w.db, now := w.now }) := by
      have hupdate : (undeleteStmt i.id (nameAt i.name m)).run { db := w.db, now := w.now } =
          (.ok (), { db := undelete i.id (nameAt i.name m) w.db, now := w.now }) :=
        Prog.run_execUnless_of_none hallowed
      rw [finishRestore, Prog.run_bind_of_ok hupdate]
      rfl
    have hinode : (Prog.query fun w : TrashWorld => inodeOf i.id w.db :
        TrashProg DbError (Option InodeRecord)).run { db := w.db, now := w.now } =
          (.ok (some i), { db := w.db, now := w.now }) :=
      Prod.ext (congrArg Except.ok (inodeOf_of_mem h hi)) rfl
    have hrestore : (restoreSoftDeletedInode attempts i.id).run { db := w.db, now := w.now } =
        (.ok (nameAt i.name m),
          { db := undelete i.id (nameAt i.name m) w.db, now := w.now }) := by
      rw [restoreSoftDeletedInode, Prog.run_bind_of_ok hinode, Prog.ofOption_some, Prog.ret_bind,
        Prog.run_bind_of_ok hsearch, hfinish]
    rw [run_onTrash, hrestore]
    rfl
  · exact ⟨_, hrow, rfl, rfl, rfl, rfl⟩
  · intro j hj hid hlive hparent hname
    exact hinv.apart j hj _ hrow hid (clash_of_live hname hparent hlive rfl)

end Restore

/-! ## The names of every run -/

/-- Whatever has been called since the database was created, live names are unique and every file
in the trash can be restored; the name of a deleted file is free again if and only if the file was
at the root. -/
theorem soft_delete_frees_iff (calls : List InodeCall) (w₀ : FileWorld P) (hfresh : w₀.db = {}) :
    LiveNamesUnique (InodeCall.run calls w₀).db ∧
      (∀ i ∈ (InodeCall.run calls w₀).db.inodes, i.kind = "FILE" → i.deletedAt = none →
        (NameFreed (InodeCall.run calls w₀) i ↔ i.parentId = none)) ∧
      ∀ i ∈ (InodeCall.run calls w₀).db.inodes, i.deletedAt ≠ none →
        RestoreSucceeds (InodeCall.run calls w₀) i := by
  have hinv : Inv (InodeCall.run calls w₀).db := Inv.run calls (hfresh ▸ Inv.fresh)
  exact ⟨hinv.liveNamesUnique, fun i hi hkind hlive => nameFreed_iff hinv hi hkind hlive,
    fun i hi hdeleted => restoreSucceeds hinv hi hdeleted⟩

def emptyStore : FileWorld symbolic where
  vault := { db := {}, inner := none, draws := 0 }

/-- A folder, a file in it and a file at the root. -/
def docsCalls : List InodeCall :=
  [.create none "docs" "DIR" 0, .upsert (some 1) "a.txt" "FILE" 3 none,
    .upsert none "b.txt" "FILE" 3 none]

/-- The name of a deleted file in a folder stays taken. -/
theorem soft_delete_not_frees :
    ¬ ∀ (calls : List InodeCall) (w₀ : FileWorld symbolic), w₀.db = {} →
      ∀ i ∈ (InodeCall.run calls w₀).db.inodes, i.kind = "FILE" → i.deletedAt = none →
        NameFreed (InodeCall.run calls w₀) i := by
  intro h
  obtain ⟨inodeId, w', hrun, -⟩ := h docsCalls emptyStore rfl
    { id := 2, parentId := some 1, name := "a.txt", kind := "FILE", size := 3 } (by decide) rfl rfl
    0 "FILE" 3 none rfl
  have hrefused : ((Db.upsertInode (some 1) "a.txt" "FILE" 3 none).run
      ((InodeCall.softDelete 2 0).step (InodeCall.run docsCalls emptyStore))).1 =
        .error .uniqueViolation := rfl
  rw [hrun] at hrefused
  cases hrefused

/-- The file at the root gives its name back, and the file in the folder does not. -/
theorem soft_delete_frees_docs :
    LiveNamesUnique (InodeCall.run docsCalls emptyStore).db ∧
      (∀ i ∈ (InodeCall.run docsCalls emptyStore).db.inodes, i.kind = "FILE" →
        i.deletedAt = none →
          (NameFreed (InodeCall.run docsCalls emptyStore) i ↔ i.parentId = none)) ∧
      ∀ i ∈ (InodeCall.run docsCalls emptyStore).db.inodes, i.deletedAt ≠ none →
        RestoreSucceeds (InodeCall.run docsCalls emptyStore) i :=
  soft_delete_frees_iff docsCalls emptyStore rfl

end Names

end OmniDrive
