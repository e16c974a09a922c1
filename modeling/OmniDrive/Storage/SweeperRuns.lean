import OmniDrive.Storage.Grace

/-!
# Runs of the sweeper

In every run under the condition on its steps, the sweeper deletes only what has been in the
trash for the grace period, and a restored file is complete. Marks say how far each call and the
sweeper is with a hard delete.
-/

namespace OmniDrive

open StatementProgram Tables

namespace Trash

/-! ## Marks -/

/-- How far each call and the sweeper (no number) is with a hard delete, and the list of the
sweeper. -/
structure Marks where
  actor : Option ℕ → Option (ℤ × DeletePhase)
  queue : List ℤ

namespace Marks

def At (m : Marks) (i : ℤ) (phase : DeletePhase) : Prop := ∃ a, m.actor a = some (i, phase)

def Listed (m : Marks) (i : ℤ) : Prop := (∃ phase, m.actor none = some (i, phase)) ∨ i ∈ m.queue

def Targeted (m : Marks) (i : ℤ) : Prop := m.Listed i ∨ ∃ phase, m.At i phase

/-- A hard delete of the inode has executed its first statement. -/
def Begun (m : Marks) (i : ℤ) : Prop := ∃ phase ≠ DeletePhase.refs, m.At i phase

/-- The tables agree with the marks. -/
def Tables (m : Marks) (s : TrashRun) : Prop :=
  TrashTables m.Targeted m.Begun (m.At · .revisions) m.Listed s

/-- Another mark for an actor. -/
def move (m : Marks) (a : Option ℕ) (x : Option (ℤ × DeletePhase)) : Marks :=
  { m with actor := Function.update m.actor a x }

/-- The sweeper goes to the next inode of its list. -/
def startNext (m : Marks) : Marks :=
  match m.queue with
  | [] => m.move none none
  | i :: queue => { m.move none (some (i, .refs)) with queue }

variable {m : Marks} {a : Option ℕ} {x : Option (ℤ × DeletePhase)} {i j : ℤ} {phase : DeletePhase}

@[simp] theorem actor_move_self : (m.move a x).actor a = x := by
  simp [move]

theorem actor_move_ne {b : Option ℕ} (hab : b ≠ a) : (m.move a x).actor b = m.actor b := by
  simp [move, hab]

theorem at_of_move (h : (m.move a x).At i phase) : m.At i phase ∨ x = some (i, phase) := by
  obtain ⟨b, hb⟩ := h
  by_cases hab : b = a
  · rw [hab, actor_move_self] at hb
    exact Or.inr hb
  · rw [actor_move_ne hab] at hb
    exact Or.inl ⟨b, hb⟩

theorem at_move (h : m.At i phase) : (m.move a x).At i phase ∨ m.actor a = some (i, phase) := by
  obtain ⟨b, hb⟩ := h
  by_cases hab : b = a
  · exact Or.inr (hab ▸ hb)
  · left
    refine ⟨b, ?_⟩
    rw [actor_move_ne hab]
    exact hb

theorem at_move_self : (m.move a (some (i, phase))).At i phase :=
  ⟨a, actor_move_self⟩

/-- Another mark for the same inode, or none, lists no more. -/
theorem listed_of_move (ha : m.actor a = some (j, phase)) (hx : ∀ y ∈ x, y.1 = j)
    (h : (m.move a x).Listed i) : m.Listed i := by
  rcases h with ⟨phase', hp⟩ | hq
  · by_cases hab : none = a
    · rw [← hab, actor_move_self] at hp
      left
      rw [← hx _ hp, ← hab] at ha
      exact ⟨phase, ha⟩
    · rw [actor_move_ne hab] at hp
      exact Or.inl ⟨phase', hp⟩
  · exact Or.inr hq

theorem targeted_of_move (ha : m.actor a = some (j, phase)) (hx : ∀ y ∈ x, y.1 = j)
    (h : (m.move a x).Targeted i) : m.Targeted i := by
  rcases h with hl | ⟨phase', hp⟩
  · exact Or.inl (listed_of_move ha hx hl)
  · rcases at_of_move hp with hp | hp
    · exact Or.inr ⟨phase', hp⟩
    · rw [← hx _ hp] at ha
      exact Or.inr ⟨phase, a, ha⟩

theorem begun_move (hi : ∀ phase, m.actor a = some (i, phase) → phase = .refs) (h : m.Begun i) :
    (m.move a x).Begun i := by
  obtain ⟨phase, hne, hp⟩ := h
  rcases at_move hp with hp | hp
  · exact ⟨phase, hne, hp⟩
  · exact absurd (hi phase hp) hne

/-- The marks of a hard delete at its first statement. -/
theorem Tables.deleteRefs {s : TrashRun} (h : m.Tables s) (ha : m.actor a = some (j, .refs)) :
    (m.move a (some (j, .revisions))).Tables
      (s.observe { s.world with db := Trash.deleteRefs j s.world.db }) := by
  have hx : ∀ y ∈ some (j, DeletePhase.revisions), y.1 = j := by
    intro y hy
    rw [← Option.some.inj hy]
  apply TrashTables.deleteRefs h
  · exact Or.inr ⟨_, a, ha⟩
  · exact fun i => targeted_of_move ha hx
  · intro i
    apply begun_move
    intro phase hp
    rw [ha] at hp
    cases hp
    rfl
  · exact fun i => listed_of_move ha hx
  · intro i hi
    rcases at_move hi with hi | hi
    · exact hi
    · rw [ha] at hi
      cases hi
  · exact ⟨.revisions, by decide, at_move_self⟩
  · exact at_move_self

/-- The marks of a hard delete at its second statement. -/
theorem Tables.deleteRevisions {s : TrashRun} (h : m.Tables s)
    (ha : m.actor a = some (j, .revisions)) :
    (m.move a (some (j, .inode))).Tables
      (s.observe { s.world with db := Trash.deleteRevisions j s.world.db }) := by
  have hx : ∀ y ∈ some (j, DeletePhase.inode), y.1 = j := by
    intro y hy
    rw [← Option.some.inj hy]
  have hbegun : (m.move a (some (j, .inode))).Begun j := ⟨.inode, by decide, at_move_self⟩
  apply TrashTables.deleteRevisions h
  · exact Or.inr ⟨_, a, ha⟩
  · exact fun i => targeted_of_move ha hx
  · intro i hi
    by_cases hij : i = j
    · rw [hij]
      exact hbegun
    · apply begun_move _ hi
      intro phase hp
      rw [ha] at hp
      cases hp
      exact absurd rfl hij
  · exact fun i => listed_of_move ha hx
  · intro i hij hi
    rcases at_move hi with hi | hi
    · exact hi
    · rw [ha] at hi
      cases hi
      exact absurd rfl hij
  · exact hbegun

/-- The marks of a hard delete at its last statement. -/
theorem Tables.deleteInode {s : TrashRun} (h : m.Tables s) (ha : m.actor a = some (j, .inode)) :
    (m.move a none).Tables
      (s.observe { s.world with db := Trash.deleteInode j s.world.db }) := by
  have hx : ∀ y ∈ (none : Option (ℤ × DeletePhase)), y.1 = j := by
    intro y hy
    cases hy
  apply TrashTables.deleteInode h
  · exact Or.inr ⟨_, a, ha⟩
  · exact fun i => targeted_of_move ha hx
  · intro i hij hi
    apply begun_move _ hi
    intro phase hp
    rw [ha] at hp
    cases hp
    exact absurd rfl hij
  · exact fun i => listed_of_move ha hx
  · intro i hij hi
    rcases at_move hi with hi | hi
    · exact hi
    · rw [ha] at hi
      cases hi

/-- A hard delete is given up before its first statement. -/
theorem Tables.giveUp {s : TrashRun} (h : m.Tables s) (ha : m.actor a = some (j, .refs)) :
    (m.move a none).Tables s := by
  have hx : ∀ y ∈ (none : Option (ℤ × DeletePhase)), y.1 = j := by
    intro y hy
    cases hy
  apply TrashTables.mono h
  · exact fun i => targeted_of_move ha hx
  · intro i
    apply begun_move
    intro phase hp
    rw [ha] at hp
    cases hp
    rfl
  · intro i hi
    rcases at_move hi with hi | hi
    · exact hi
    · rw [ha] at hi
      cases hi
  · exact fun i => listed_of_move ha hx

/-- An actor with no mark may take up an inode that is in the trash. -/
theorem Tables.takeUp {s : TrashRun} {n : ℕ} (h : m.Tables s) (hn : m.actor (some n) = none)
    (hj : ∀ r ∈ s.world.db.inodes, r.id = j → r.deletedAt ≠ none) :
    (m.move (some n) (some (j, .refs))).Tables s := by
  have hgrown : ∀ i phase, m.At i phase → (m.move (some n) (some (j, .refs))).At i phase := by
    intro i phase hi
    rcases at_move hi with hi | hi
    · exact hi
    · rw [hn] at hi
      cases hi
  have hmono : TrashTables m.Targeted (m.move (some n) (some (j, .refs))).Begun
      ((m.move (some n) (some (j, .refs))).At · .revisions) m.Listed s := by
    apply TrashTables.mono h
    · exact fun _ hi => hi
    · exact fun i ⟨phase, hne, hp⟩ => ⟨phase, hne, hgrown i phase hp⟩
    · exact fun i => hgrown i _
    · exact fun _ hi => hi
  apply TrashTables.target hmono
  · intro r hr ht
    rcases ht with hl | ⟨phase, hp⟩
    · exact Or.inl (Or.inl hl)
    · rcases at_of_move hp with hp | hp
      · exact Or.inl (Or.inr ⟨phase, hp⟩)
      · cases hp
        exact Or.inr (hj r hr rfl)
  · exact fun r _ hs => Or.inl hs

/-- The next inode of the list was on the list. -/
theorem Tables.startNext {s : TrashRun} (h : (m.move none none).Tables s) :
    m.startNext.Tables s := by
  rw [Marks.startNext]
  split
  · exact h
  · rename_i i queue hqueue
    have hlisted : ∀ k, ({ m.move none (some (i, .refs)) with queue } : Marks).Listed k →
        (m.move none none).Listed k := by
      intro k hk
      right
      show k ∈ m.queue
      rw [hqueue]
      rcases hk with ⟨phase, hp⟩ | hq
      · have hp' : (m.move none (some (i, .refs))).actor none = some (k, phase) := hp
        rw [actor_move_self] at hp'
        cases hp'
        exact List.mem_cons_self
      · exact List.mem_cons_of_mem _ hq
    have hgrown : ∀ k phase, (m.move none none).At k phase →
        ({ m.move none (some (i, .refs)) with queue } : Marks).At k phase := by
      intro k phase ⟨b, hb⟩
      by_cases hab : b = none
      · rw [hab, actor_move_self] at hb
        cases hb
      · rw [actor_move_ne hab] at hb
        exact ⟨b, (actor_move_ne hab).trans hb⟩
    apply TrashTables.mono h
    · intro k hk
      rcases hk with hl | ⟨phase, b, hb⟩
      · exact Or.inl (hlisted k hl)
      · by_cases hab : b = none
        · rw [hab] at hb
          exact Or.inl (hlisted k (Or.inl ⟨phase, hb⟩))
        · have hb' := (actor_move_ne hab).symm.trans hb
          exact Or.inr ⟨phase, b, (actor_move_ne hab).trans hb'⟩
    · exact fun k ⟨phase, hne, hp⟩ => ⟨phase, hne, hgrown k phase hp⟩
    · exact fun k => hgrown k _
    · exact hlisted

/-- The sweeper lists what has been in the trash for the grace period. -/
theorem Tables.list {s : TrashRun} (h : m.Tables s) :
    ({ m with queue := expiredSoftDeleted (s.world.now - softDeleteGraceMs) s.world.db } :
      Marks).Tables s := by
  have hexpired : ∀ r ∈ s.world.db.inodes,
      r.id ∈ expiredSoftDeleted (s.world.now - softDeleteGraceMs) s.world.db →
      ∃ t, r.deletedAt = some t ∧ t + softDeleteGraceMs < s.world.now := by
    intro r hr hmem
    rw [expiredSoftDeleted, mem_orderBy, List.mem_map] at hmem
    obtain ⟨r', hr', hid⟩ := hmem
    rw [List.mem_filter] at hr'
    have heq : r' = r := List.inj_on_of_nodup_map (TrashTables.ids h) hr'.1 hr hid
    rw [heq, Option.any_eq_true] at hr'
    obtain ⟨-, t, ht, hlt⟩ := hr'
    refine ⟨t, ht, ?_⟩
    have hlt' := of_decide_eq_true hlt
    omega
  apply TrashTables.target h
  · intro r hr ht
    rcases ht with hl | hp
    · rcases hl with hp | hq
      · exact Or.inl (Or.inl (Or.inl hp))
      · right
        obtain ⟨t, ht, -⟩ := hexpired r hr hq
        rw [ht]
        exact Option.some_ne_none t
    · exact Or.inl (Or.inr hp)
  · intro r hr hs
    rcases hs with hp | hq
    · exact Or.inl (Or.inl hp)
    · exact Or.inr (hexpired r hr hq)

end Marks

/-! ## The points of the handlers -/

/-- What may be left of a restore. -/
inductive RestorePoint (i : ℤ) : TrashProg ApiError TrashResponse → Prop
  | check (attempts : ℕ) : RestorePoint i (restoreTrash attempts i)
  | read (attempts : ℕ) : RestorePoint i (respondRestored i (restoreSoftDeletedInode attempts i))
  | search (inode : InodeRecord) (more : ℕ) (name : String) (attempt : ℕ) :
    RestorePoint i (respondRestored i (searchName inode more name attempt >>= finishRestore i))
  | update (name : String) : RestorePoint i (respondRestored i (finishRestore i name))
  | returned (r : TrashResponse) : RestorePoint i (.ret r)
  | failed (e : ApiError) : RestorePoint i (.fail e)

/-- A call outside a hard delete. -/
inductive Idle : TrashThread → Prop
  | restore {i : ℤ} {p : TrashProg ApiError TrashResponse} (h : RestorePoint i p) :
    Idle ⟨.restore i, p⟩
  | purge (i : ℤ) : Idle ⟨.purge i, purgeTrash i⟩
  | purged (i : ℤ) (r : TrashResponse) : Idle ⟨.purge i, .ret r⟩
  | refused (i : ℤ) (e : ApiError) : Idle ⟨.purge i, .fail e⟩

section Points

variable {i : ℤ} {upd : TrashWorld → TrashWorld}

/-- The check of both handlers lets only inodes in the trash through. -/
theorem checked {β : Type} {w : TrashWorld} {e : ApiError} {f : Unit → TrashProg ApiError β} :
    let p := (Prog.ofOption e (inodeOf i w.db) >>= fun inode =>
      Prog.ofExcept (checkInTrash inode)) >>= f
    (∃ e', p = .fail e') ∨ p = f () ∧ deletedAt i w.db ≠ none := by
  intro p
  cases hfound : inodeOf i w.db with
  | none =>
    left
    exact ⟨e, by simp only [p, hfound, Prog.ofOption_none, Prog.fail_bind]⟩
  | some inode =>
    cases hdeleted : inode.deletedAt with
    | none =>
      left
      refine ⟨.conflict "inode is not in trash", ?_⟩
      simp only [p, hfound, Prog.ofOption_some, Prog.ret_bind, checkInTrash, hdeleted,
        Option.isNone_none, if_true, Prog.ofExcept_error, Prog.fail_bind]
    | some t =>
      right
      constructor
      · simp only [p, hfound, Prog.ofOption_some, Prog.ret_bind, checkInTrash, hdeleted,
          Option.isNone_some, Bool.false_eq_true, if_false, Prog.ofExcept_ok]
      · rw [deletedAt, hfound, Option.bind_some, hdeleted]
        exact Option.some_ne_none t

theorem restoreTrash_eq (attempts : ℕ) (i : ℤ) : restoreTrash attempts i = .stmt id fun w =>
    (Prog.ofOption (.notFound "inode" (toString i)) (inodeOf i w.db) >>= fun inode =>
      Prog.ofExcept (checkInTrash inode)) >>= fun _ =>
    respondRestored i (restoreSoftDeletedInode attempts i) := rfl

theorem respondRestored_read (attempts : ℕ) (i : ℤ) :
    respondRestored i (restoreSoftDeletedInode attempts i) = .stmt id fun w =>
    respondRestored i (Prog.ofOption .rowNotFound (inodeOf i w.db) >>= fun inode =>
      searchName inode attempts inode.name 1 >>= finishRestore i) := rfl

theorem respondRestored_search (i : ℤ) (inode : InodeRecord) (more : ℕ) (name : String)
    (attempt : ℕ) :
    respondRestored i (searchName inode (more + 1) name attempt >>= finishRestore i) =
      .stmt id fun w => respondRestored i ((if pathTaken inode.parentId name w.db then
        searchName inode more (restoredName inode.name attempt) (attempt + 1)
        else pure name) >>= finishRestore i) := rfl

theorem purgeTrash_eq (i : ℤ) : purgeTrash i = .stmt id fun w =>
    (Prog.ofOption (.notFound "inode" (toString i)) (inodeOf i w.db) >>= fun inode =>
      Prog.ofExcept (checkInTrash inode)) >>= fun _ => purgeFrom i .refs := rfl

/-- A search for a name never returns at once. -/
theorem respondRestored_search_ne (inode : InodeRecord) (more : ℕ) (name : String)
    (attempt : ℕ) (r : TrashResponse) :
    respondRestored i (searchName inode more name attempt >>= finishRestore i) ≠ .ret r := by
  intro h
  cases more with
  | zero => cases h
  | succ more => cases h

/-- A restore only reads until its update. -/
theorem RestorePoint.step {next : TrashWorld → TrashProg ApiError TrashResponse}
    (h : RestorePoint i (.stmt upd next)) :
    (∃ name, .stmt upd next = respondRestored i (finishRestore i name)) ∨
      upd = id ∧ ∀ w, RestorePoint i (next w) ∧ ∀ r, next w ≠ .ret r := by
  generalize hp : Prog.stmt upd next = p at h
  cases h with
  | check attempts =>
    right
    rw [restoreTrash_eq] at hp
    injection hp with hupd hnext
    refine ⟨hupd, fun w => ?_⟩
    rw [hnext]
    dsimp only
    rcases checked (i := i) (w := w) (e := .notFound "inode" (toString i))
      (f := fun _ => respondRestored i (restoreSoftDeletedInode attempts i)) with
      ⟨e', hfail⟩ | ⟨hok, -⟩
    · rw [hfail]
      exact ⟨.failed e', fun r hr => by cases hr⟩
    · rw [hok]
      exact ⟨.read attempts, fun r hr => by cases hr⟩
  | read attempts =>
    right
    rw [respondRestored_read] at hp
    injection hp with hupd hnext
    refine ⟨hupd, fun w => ?_⟩
    rw [hnext]
    dsimp only
    cases hfound : inodeOf i w.db with
    | none => exact ⟨.failed _, fun r hr => by cases hr⟩
    | some inode =>
      exact ⟨.search inode attempts inode.name 1, respondRestored_search_ne inode attempts _ 1⟩
  | search inode more name attempt =>
    cases more with
    | zero => cases hp
    | succ more =>
      right
      rw [respondRestored_search] at hp
      injection hp with hupd hnext
      refine ⟨hupd, fun w => ?_⟩
      rw [hnext]
      dsimp only
      split
      · exact ⟨.search inode more _ _, respondRestored_search_ne inode more _ _⟩
      · exact ⟨.update name, fun r hr => by cases hr⟩
  | update name => exact Or.inl ⟨name, rfl⟩
  | returned r => cases hp
  | failed e => cases hp

end Points

/-! ## The marks of a run -/

/-- The calls and the sweeper of a run are where the marks say. -/
structure Marks.Tracks (m : Marks) (s : TrashRun) : Prop where
  idle : ∀ n t, s.calls[n]? = some t → m.actor (some n) = none → Idle t
  purging : ∀ n t i phase, s.calls[n]? = some t → m.actor (some n) = some (i, phase) →
    t = ⟨.purge i, purgeFrom i phase⟩
  absent : ∀ n, s.calls[n]? = none → m.actor (some n) = none
  sweeper : s.sweep = (m.actor none).map fun mark =>
    ⟨mark.1, hardDeleteFrom id mark.1 mark.2, m.queue⟩
  waiting : m.actor none = none → m.queue = []

/-- The invariant of a run. -/
def TrashInv (s : TrashRun) : Prop := ∃ m : Marks, m.Tracks s ∧ m.Tables s

namespace Marks.Tracks

variable {m : Marks} {s s' : TrashRun} {t t' : TrashThread} {n : ℕ} {i : ℤ} {phase : DeletePhase}
variable {x : Option (ℤ × DeletePhase)}

/-- Only the calls and the sweeper are tracked. -/
theorem congr (h : m.Tracks s) (hcalls : s'.calls = s.calls) (hsweep : s'.sweep = s.sweep) :
    m.Tracks s' := by
  refine ⟨?_, ?_, ?_, hsweep.trans h.sweeper, h.waiting⟩
  · rw [hcalls]
    exact h.idle
  · rw [hcalls]
    exact h.purging
  · rw [hcalls]
    exact h.absent

/-- A call takes a step. -/
theorem set (h : m.Tracks s) (hn : s.calls[n]? = some t) (hidle : x = none → Idle t')
    (hpurging : ∀ i phase, x = some (i, phase) → t' = ⟨.purge i, purgeFrom i phase⟩)
    (hcalls : s'.calls = s.calls.set n t') (hsweep : s'.sweep = s.sweep) :
    (m.move (some n) x).Tracks s' := by
  have hlt : n < s.calls.length := (List.getElem?_eq_some_iff.mp hn).1
  have hself : (s.calls.set n t')[n]? = some t' := List.getElem?_set_self hlt
  have hother : ∀ k ≠ n, (s.calls.set n t')[k]? = s.calls[k]? := by
    intro k hk
    exact List.getElem?_set_ne (Ne.symm hk)
  have hactor : ∀ k ≠ n, (m.move (some n) x).actor (some k) = m.actor (some k) := by
    intro k hk
    exact actor_move_ne (by simpa using hk)
  rw [← hcalls] at hself hother
  constructor
  · intro k u hu hnone
    by_cases hk : k = n
    · rw [hk, hself] at hu
      rw [hk, actor_move_self] at hnone
      rw [← Option.some.inj hu]
      exact hidle hnone
    · rw [hother k hk] at hu
      rw [hactor k hk] at hnone
      exact h.idle k u hu hnone
  · intro k u i phase hu hsome
    by_cases hk : k = n
    · rw [hk, hself] at hu
      rw [hk, actor_move_self] at hsome
      rw [← Option.some.inj hu]
      exact hpurging i phase hsome
    · rw [hother k hk] at hu
      rw [hactor k hk] at hsome
      exact h.purging k u i phase hu hsome
  · intro k hnone
    by_cases hk : k = n
    · rw [hk, hself] at hnone
      cases hnone
    · rw [hother k hk] at hnone
      rw [hactor k hk]
      exact h.absent k hnone
  · rw [hsweep, actor_move_ne (by simp)]
    exact h.sweeper
  · rw [actor_move_ne (by simp)]
    exact h.waiting

/-- A new call is outside a hard delete. -/
theorem append (h : m.Tracks s) (ht : Idle t) (hcalls : s'.calls = s.calls ++ [t])
    (hsweep : s'.sweep = s.sweep) : m.Tracks s' := by
  have hcall : ∀ k u, s'.calls[k]? = some u → s.calls[k]? = some u ∨ k = s.calls.length ∧ u = t := by
    intro k u hu
    rw [hcalls] at hu
    by_cases hk : k < s.calls.length
    · rw [List.getElem?_append_left hk] at hu
      exact Or.inl hu
    · rw [List.getElem?_append_right (by omega), List.getElem?_singleton] at hu
      split at hu
      · exact Or.inr ⟨by omega, (Option.some.inj hu).symm⟩
      · cases hu
  refine ⟨?_, ?_, ?_, hsweep.trans h.sweeper, h.waiting⟩
  · intro k u hu hnone
    rcases hcall k u hu with hu | ⟨-, hu⟩
    · exact h.idle k u hu hnone
    · rw [hu]
      exact ht
  · intro k u i phase hu hsome
    rcases hcall k u hu with hu | ⟨hk, -⟩
    · exact h.purging k u i phase hu hsome
    · rw [h.absent k (by rw [hk]; simp)] at hsome
      cases hsome
  · intro k hnone
    apply h.absent
    rw [hcalls, List.getElem?_eq_none_iff, List.length_append] at hnone
    rw [List.getElem?_eq_none_iff]
    omega

/-- The sweeper takes a step. -/
theorem sweep (h : m.Tracks s) (hcalls : s'.calls = s.calls)
    (hsweep : s'.sweep = some ⟨i, hardDeleteFrom id i phase, m.queue⟩) :
    (m.move none (some (i, phase))).Tracks s' := by
  refine ⟨?_, ?_, ?_, ?_, ?_⟩
  · rw [hcalls]
    intro k u hu hnone
    rw [actor_move_ne (by simp)] at hnone
    exact h.idle k u hu hnone
  · rw [hcalls]
    intro k u i phase hu hsome
    rw [actor_move_ne (by simp)] at hsome
    exact h.purging k u i phase hu hsome
  · rw [hcalls]
    intro k hnone
    rw [actor_move_ne (by simp)]
    exact h.absent k hnone
  · rw [hsweep, actor_move_self]
    rfl
  · rw [actor_move_self]
    intro hnone
    cases hnone

/-- The sweeper goes to the first inode of a list. -/
theorem startNext (h : m.Tracks s) (queue : List ℤ) (hcalls : s'.calls = s.calls)
    (hsweep : s'.sweep = Sweep.start queue) : ({ m with queue } : Marks).startNext.Tracks s' := by
  have hother : ∀ k, ({ m with queue } : Marks).startNext.actor (some k) = m.actor (some k) := by
    intro k
    have hne : (some k : Option ℕ) ≠ none := Option.some_ne_none k
    cases queue with
    | nil => exact actor_move_ne (m := { m with queue := [] }) hne
    | cons i queue =>
      exact actor_move_ne (m := { m with queue := i :: queue }) (x := some (i, .refs)) hne
  refine ⟨?_, ?_, ?_, ?_, ?_⟩
  · rw [hcalls]
    intro k u hu hnone
    rw [hother] at hnone
    exact h.idle k u hu hnone
  · rw [hcalls]
    intro k u i phase hu hsome
    rw [hother] at hsome
    exact h.purging k u i phase hu hsome
  · rw [hcalls]
    intro k hnone
    rw [hother]
    exact h.absent k hnone
  · rw [hsweep]
    cases queue with
    | nil =>
      show none = Option.map _ ((({ m with queue := [] } : Marks).move none none).actor none)
      rw [actor_move_self, Option.map_none]
    | cons i queue =>
      show _ = Option.map _
        ((({ m with queue := i :: queue } : Marks).move none (some (i, .refs))).actor none)
      rw [actor_move_self]
      rfl
  · cases queue with
    | nil => exact fun _ => rfl
    | cons i queue =>
      intro hnone
      have hself := actor_move_self (m := { m with queue := i :: queue }) (a := none)
        (x := some (i, .refs))
      cases hself.symm.trans hnone

theorem targeted (h : m.Tracks s) (hi : m.Targeted i) : Trash.Targeted i s := by
  have hsweeper : ∀ j phase, m.actor none = some (j, phase) →
      s.sweep = some ⟨j, hardDeleteFrom id j phase, m.queue⟩ := by
    intro j phase hj
    rw [h.sweeper, hj, Option.map_some]
  rcases hi with (⟨phase, hp⟩ | hq) | ⟨phase, a, ha⟩
  · exact Or.inl ⟨_, hsweeper i phase hp, Or.inl rfl⟩
  · cases hactor : m.actor none with
    | none =>
      rw [h.waiting hactor] at hq
      cases hq
    | some mark => exact Or.inl ⟨_, hsweeper mark.1 mark.2 hactor, Or.inr hq⟩
  · cases a with
    | none => exact Or.inl ⟨_, hsweeper i phase ha, Or.inl rfl⟩
    | some n =>
      cases hn : s.calls[n]? with
      | none =>
        rw [h.absent n hn] at ha
        cases ha
      | some t =>
        have ht := h.purging n t i phase hn ha
        refine Or.inr ⟨phase, Or.inr ⟨t, List.mem_of_getElem? hn, ?_, ?_⟩⟩
        · rw [ht]
        · rw [ht]

/-- At rest nothing is marked. -/
theorem at_quiet (h : m.Tracks s) (hquiet : Quiet s) : ¬ m.At i phase := by
  intro ⟨a, ha⟩
  cases a with
  | none =>
    have hsweep := h.sweeper
    rw [hquiet.1, ha] at hsweep
    cases hsweep
  | some n =>
    cases hn : s.calls[n]? with
    | none =>
      rw [h.absent n hn] at ha
      cases ha
    | some t =>
      have ht := h.purging n t i phase hn ha
      cases phase with
      | refs => exact hquiet.2 t (List.mem_of_getElem? hn) _ _ (congrArg TrashThread.rest ht)
      | revisions => exact hquiet.2 t (List.mem_of_getElem? hn) _ _ (congrArg TrashThread.rest ht)
      | inode => exact hquiet.2 t (List.mem_of_getElem? hn) _ _ (congrArg TrashThread.rest ht)

end Marks.Tracks

/-! ## The steps keep the invariant -/

section Steps

variable {s : TrashRun} {t : TrashThread} {n : ℕ} {i : ℤ}
variable {upd : TrashWorld → TrashWorld} {next : TrashWorld → TrashProg ApiError TrashResponse}

/-- A statement of a call, unless a restore returns. -/
theorem resumeThread_stmt (hrest : t.rest = .stmt upd next)
    (hret : ∀ i r, t.call = .restore i → next s.world ≠ .ret r) :
    resumeThread n t s = { s with
      calls := s.calls.set n { t with rest := next s.world } }.observe (upd s.world) := by
  rw [resumeThread, hrest]
  dsimp only
  split
  · rename_i i r hcall hnext
    exact absurd hnext (hret i r hcall)
  · rfl

/-- A purge in its hard delete goes on. -/
theorem TrashInv.resumePurge {m : Marks} {phase : DeletePhase} (htracks : m.Tracks s)
    (htables : m.Tables s) (hn : s.calls[n]? = some ⟨.purge i, purgeFrom i phase⟩)
    (ha : m.actor (some n) = some (i, phase))
    (hchildren : phase = .inode → hasChildren i s.world.db = false) :
    TrashInv (resumeThread n ⟨.purge i, purgeFrom i phase⟩ s) := by
  cases phase with
  | refs =>
    refine ⟨m.move (some n) (some (i, .revisions)), ?_, ?_⟩
    · apply htracks.set hn
      · intro hnone
        cases hnone
      · intro j phase heq
        cases heq
        rfl
      · rfl
      · rfl
    · exact TrashTables.withThreads (Marks.Tables.deleteRefs htables ha) _ _
  | revisions =>
    refine ⟨m.move (some n) (some (i, .inode)), ?_, ?_⟩
    · apply htracks.set hn
      · intro hnone
        cases hnone
      · intro j phase heq
        cases heq
        rfl
      · rfl
      · rfl
    · exact TrashTables.withThreads (Marks.Tables.deleteRevisions htables ha) _ _
  | inode =>
    have hstep : resumeThread n ⟨.purge i, purgeFrom i .inode⟩ s = { s with
        calls := s.calls.set n ⟨.purge i, .ret (.purged i)⟩ }.observe
          { s.world with db := deleteInode i s.world.db } := by
      simp [resumeThread, purgeFrom, hardDeleteFrom, deleteInodeRecord, Prog.execUnless,
        hchildren rfl]
    rw [hstep]
    refine ⟨m.move (some n) none, ?_, ?_⟩
    · apply htracks.set hn
      · exact fun _ => .purged i (.purged i)
      · intro j phase heq
        cases heq
      · rfl
      · rfl
    · exact TrashTables.withThreads (Marks.Tables.deleteInode htables ha) _ _

/-- A restore goes on. -/
theorem TrashInv.resumeRestore {m : Marks} {p : TrashProg ApiError TrashResponse}
    (htracks : m.Tracks s) (htables : m.Tables s) (hn : s.calls[n]? = some ⟨.restore i, p⟩)
    (hp : RestorePoint i p)
    (hupdate : ∀ name, p = respondRestored i (finishRestore i name) →
      (∃ r ∈ s.world.db.inodes, r.id = i) ∧ ¬ Targeted i s) (ha : m.actor (some n) = none) :
    TrashInv (resumeThread n ⟨.restore i, p⟩ s) := by
  have hidle : ∀ {s' : TrashRun} {p' : TrashProg ApiError TrashResponse}, RestorePoint i p' →
      s'.calls = s.calls.set n ⟨.restore i, p'⟩ → s'.sweep = s.sweep →
      (m.move (some n) none).Tracks s' := by
    intro s' p' hp' hcalls hsweep
    apply htracks.set hn _ _ hcalls hsweep
    · exact fun _ => .restore hp'
    · intro j phase heq
      cases heq
  have hmove : m.move (some n) none = m := by
    rw [Marks.move, ← ha, Function.update_eq_self]
  rw [hmove] at hidle
  cases hstmt : p with
  | ret r =>
    exact ⟨m, htracks, htables⟩
  | fail e =>
    exact ⟨m, htracks, htables⟩
  | stmt upd next =>
    rw [hstmt] at hp hupdate
    rcases hp.step with ⟨name, hlast⟩ | ⟨hread, hnext⟩
    · obtain ⟨hexists, hfree⟩ := hupdate name hlast
      have hmarked : ¬ m.Targeted i := fun hm => hfree (htracks.targeted hm)
      rw [hlast]
      cases hrefused : restoreRefused i name s.world with
      | none =>
        have hstep : resumeThread n ⟨.restore i, respondRestored i (finishRestore i name)⟩ s =
            { { s with calls := s.calls.set n ⟨.restore i, .ret (.restored i name)⟩ }.observe
                { s.world with db := undelete i name s.world.db } with
              owed := Function.update s.owed i (some (s.kept i)) } := by
          simp [resumeThread, respondRestored, finishRestore, undeleteStmt, Prog.execUnless,
            hrefused, Prog.mapError, TrashRun.observe]
        rw [hstep]
        refine ⟨m, hidle (.returned _) rfl rfl, ?_⟩
        have hbegun : ¬ m.Begun i := by
          rintro ⟨phase, -, hat⟩
          exact hmarked (Or.inr ⟨phase, hat⟩)
        have hlisted : ¬ m.Listed i := fun hl => hmarked (Or.inl hl)
        exact TrashTables.withThreads
          (TrashTables.undelete htables hexists hmarked hbegun hlisted) _ _
      | some e =>
        have hstep : resumeThread n ⟨.restore i, respondRestored i (finishRestore i name)⟩ s =
            { s with calls := s.calls.set n ⟨.restore i, .fail (.database e)⟩ }.observe
              s.world := by
          simp [resumeThread, respondRestored, finishRestore, undeleteStmt, Prog.execUnless,
            hrefused, Prog.mapError]
        rw [hstep]
        exact ⟨m, hidle (.failed _) rfl rfl, TrashTables.withThreads htables.read _ _⟩
    · rw [resumeThread_stmt rfl fun j r _ => (hnext s.world).2 r, hread]
      exact ⟨m, hidle (hnext s.world).1 rfl rfl, TrashTables.withThreads htables.read _ _⟩

/-- A purge makes its check. -/
theorem TrashInv.checkPurge {m : Marks} (htracks : m.Tracks s) (htables : m.Tables s)
    (hn : s.calls[n]? = some ⟨.purge i, purgeTrash i⟩) (ha : m.actor (some n) = none) :
    TrashInv (resumeThread n ⟨.purge i, purgeTrash i⟩ s) := by
  rw [resumeThread_stmt (purgeTrash_eq i) (by intro j r hcall; cases hcall)]
  rcases checked (i := i) (w := s.world) (e := .notFound "inode" (toString i))
    (f := fun _ => purgeFrom i .refs) with ⟨e', hfail⟩ | ⟨hok, hdeleted⟩
  · rw [hfail]
    refine ⟨m, ?_, TrashTables.withThreads htables.read _ _⟩
    have hmove : m.move (some n) none = m := by
      rw [Marks.move, ← ha, Function.update_eq_self]
    rw [← hmove]
    apply htracks.set hn
    · exact fun _ => .refused i e'
    · intro j phase heq
      cases heq
    · rfl
    · rfl
  · rw [hok]
    refine ⟨m.move (some n) (some (i, .refs)), ?_, ?_⟩
    · apply htracks.set hn
      · intro hnone
        cases hnone
      · intro j phase heq
        cases heq
        rfl
      · rfl
      · rfl
    · refine TrashTables.withThreads (TrashTables.read ?_) _ _
      apply htables.takeUp ha
      intro r hr hid
      rw [← deletedAt_of_mem htables.ids hr, hid]
      exact hdeleted

/-- The sweeper goes on with a hard delete. -/
theorem TrashInv.resumeSweeper {m : Marks} {phase : DeletePhase} (htracks : m.Tracks s)
    (htables : m.Tables s) (ha : m.actor none = some (i, phase))
    (hchildren : phase = .inode → hasChildren i s.world.db = false) :
    TrashInv (resumeSweeper s) := by
  have hsweep : s.sweep = some ⟨i, hardDeleteFrom id i phase, m.queue⟩ := by
    rw [htracks.sweeper, ha, Option.map_some]
  cases phase with
  | refs =>
    have hstep : Trash.resumeSweeper s = { s with
        sweep := some ⟨i, hardDeleteFrom id i .revisions, m.queue⟩ }.observe
          { s.world with db := deleteRefs i s.world.db } := by
      rw [Trash.resumeSweeper, hsweep]
      rfl
    rw [hstep]
    exact ⟨m.move none (some (i, .revisions)), htracks.sweep rfl rfl,
      TrashTables.withThreads (Marks.Tables.deleteRefs htables ha) _ _⟩
  | revisions =>
    have hstep : Trash.resumeSweeper s = { s with
        sweep := some ⟨i, hardDeleteFrom id i .inode, m.queue⟩ }.observe
          { s.world with db := deleteRevisions i s.world.db } := by
      rw [Trash.resumeSweeper, hsweep]
      rfl
    rw [hstep]
    exact ⟨m.move none (some (i, .inode)), htracks.sweep rfl rfl,
      TrashTables.withThreads (Marks.Tables.deleteRevisions htables ha) _ _⟩
  | inode =>
    have hstep : Trash.resumeSweeper s = { s with sweep := Sweep.start m.queue }.observe
        { s.world with db := deleteInode i s.world.db } := by
      rw [Trash.resumeSweeper, hsweep]
      simp [hardDeleteFrom, deleteInodeRecord, Prog.execUnless, hchildren rfl, Sweep.settle]
    rw [hstep]
    exact ⟨m.startNext, htracks.startNext m.queue rfl rfl,
      TrashTables.withThreads
        (Marks.Tables.startNext (Marks.Tables.deleteInode htables ha)) _ _⟩

/-- A step under its condition keeps the invariant. -/
theorem TrashInv.step (op : TrashOp) (h : TrashInv s) (hsafe : op.Safe s) :
    TrashInv (op.step s) := by
  obtain ⟨m, htracks, htables⟩ := h
  cases op with
  | tick ms => exact ⟨m, htracks.congr rfl rfl, htables.tick ms⟩
  | softDelete i => exact ⟨m, htracks.congr rfl rfl, htables.softDelete i⟩
  | newRevision i size immutableUntil deviceId parent origin reason =>
    rw [TrashOp.step]
    by_cases hallowed : revisionAllowed i parent s.world.db = true
    · rw [if_pos hallowed]
      exact ⟨m, htracks.congr rfl rfl, htables.newRevision hallowed⟩
    · rw [if_neg hallowed]
      exact ⟨m, htracks, htables⟩
  | registerChunk revisionId chunkId offset size =>
    rw [TrashOp.step]
    by_cases hallowed : (s.world.db.fileRevisions.any (·.revisionId = revisionId)) = true
    · rw [if_pos hallowed]
      exact ⟨m, htracks.congr rfl rfl, htables.registerChunk hallowed⟩
    · rw [if_neg hallowed]
      exact ⟨m, htracks, htables⟩
  | callRestore attempts i =>
    exact ⟨m, htracks.append (.restore (.check attempts)) rfl rfl,
      TrashTables.withThreads htables _ _⟩
  | callPurge i =>
    exact ⟨m, htracks.append (.purge i) rfl rfl,
      TrashTables.release (TrashTables.withThreads htables _ s.sweep) i⟩
  | resume n =>
    rw [TrashOp.step]
    cases hn : s.calls[n]? with
    | none => exact ⟨m, htracks, htables⟩
    | some t =>
      dsimp only
      cases ha : m.actor (some n) with
      | some mark =>
        have ht := htracks.purging n t mark.1 mark.2 hn ha
        rw [ht] at hn ⊢
        apply TrashInv.resumePurge htracks htables hn ha
        intro hphase
        apply (hsafe _ hn).2 mark.1 rfl
        rw [hphase]
      | none =>
        cases htracks.idle n t hn ha with
        | restore hp =>
          apply TrashInv.resumeRestore htracks htables hn hp _ ha
          intro name hlast
          exact (hsafe _ hn).1 _ name rfl hlast
        | purge i => exact TrashInv.checkPurge htracks htables hn ha
        | purged i r => exact ⟨m, htracks, htables⟩
        | refused i e => exact ⟨m, htracks, htables⟩
  | refuse n =>
    rw [TrashOp.step]
    cases hn : s.calls[n]? with
    | none => exact ⟨m, htracks, htables⟩
    | some t =>
      dsimp only
      split
      · have hidle : Idle { t with rest := .fail (.database .unavailable) } := by
          cases ha : m.actor (some n) with
          | some mark =>
            rw [htracks.purging n t mark.1 mark.2 hn ha]
            exact .refused _ _
          | none =>
            cases htracks.idle n t hn ha with
            | restore hp => exact .restore (.failed _)
            | purge i => exact .refused i _
            | purged i r => exact .refused i _
            | refused i e => exact .refused i _
        refine ⟨m.move (some n) none, ?_, TrashTables.withThreads ?_ _ _⟩
        · apply htracks.set hn (fun _ => hidle)
          · intro j phase heq
            cases heq
          · rfl
          · rfl
        · cases ha : m.actor (some n) with
          | some mark =>
            have ht := htracks.purging n t mark.1 mark.2 hn ha
            have hphase := hsafe t mark.1 mark.2 hn (by rw [ht]) (by rw [ht])
            have ha' : m.actor (some n) = some (mark.1, .refs) := by
              rw [ha, ← hphase]
            exact Marks.Tables.giveUp htables ha'
          | none =>
            rw [Marks.move, ← ha, Function.update_eq_self]
            exact htables
      · exact ⟨m, htracks, htables⟩
  | startSweep =>
    rw [TrashOp.step]
    cases hsweep : s.sweep with
    | some sw => exact ⟨m, htracks, htables⟩
    | none =>
      have ha : m.actor none = none := by
        have hsweeper := htracks.sweeper
        rw [hsweep] at hsweeper
        exact Option.map_eq_none_iff.mp hsweeper.symm
      refine ⟨_, htracks.startNext _ rfl rfl,
        TrashTables.withThreads (Marks.Tables.startNext ?_) _ _⟩
      have hlist := htables.list
      rw [Marks.Tables, Marks.move, ← ha, Function.update_eq_self]
      exact hlist
  | resumeSweep =>
    rw [TrashOp.step]
    cases ha : m.actor none with
    | none =>
      have hsweep : s.sweep = none := by
        rw [htracks.sweeper, ha, Option.map_none]
      rw [Trash.resumeSweeper, hsweep]
      exact ⟨m, htracks, htables⟩
    | some mark =>
      have hsweep := htracks.sweeper
      rw [ha, Option.map_some] at hsweep
      apply TrashInv.resumeSweeper htracks htables ha
      intro hphase
      apply hsafe _ hsweep
      rw [hphase]
  | refuseSweep =>
    rw [TrashOp.step]
    cases ha : m.actor none with
    | none =>
      have hsweep : s.sweep = none := by
        rw [htracks.sweeper, ha, Option.map_none]
      rw [hsweep]
      exact ⟨m, htracks, htables⟩
    | some mark =>
      have hsweep := htracks.sweeper
      rw [ha, Option.map_some] at hsweep
      have hphase := hsafe _ mark.2 hsweep rfl
      have ha' : m.actor none = some (mark.1, .refs) := by
        rw [ha, ← hphase]
      rw [hsweep]
      exact ⟨m.startNext, htracks.startNext m.queue rfl rfl,
        TrashTables.withThreads (Marks.Tables.startNext (Marks.Tables.giveUp htables ha')) _ _⟩

end Steps

/-! ## Runs -/

/-- The constraints of the schema on the file tables. -/
structure FileConstraints (db : FileDb) : Prop where
  ids : (db.inodes.map (·.id)).Nodup
  revisionIds : (db.fileRevisions.map (·.revisionId)).Nodup
  revisionInode : ∀ r ∈ db.fileRevisions, ∃ n ∈ db.inodes, n.id = r.inodeId
  sequence : ∀ r ∈ db.fileRevisions, r.revisionId ≤ db.revisionSequence
  refRevision : ∀ c ∈ db.chunkRefs, ∃ r ∈ db.fileRevisions, r.revisionId = c.revisionId

/-- No call yet, and what an observer notes of the tables. -/
def TrashRun.start (w : TrashWorld) : TrashRun :=
  { world := w
    since := fun i => deletedAt i w.db
    kept := fun i => contentsOf i w.db
    registered := w.db.chunkRefs }

/-- The sweeper deletes what has expired, restored files are complete, and at rest no revision
has lost its chunks. -/
def TrashSound (s : TrashRun) : Prop := SweepsExpired s ∧ RestoredComplete s ∧ NoneEmptied s

theorem FileConstraints.inv {w : TrashWorld} (h : FileConstraints w.db) :
    TrashInv (TrashRun.start w) := by
  let m : Marks := ⟨fun _ => none, []⟩
  have hat : ∀ i phase, ¬ m.At i phase := by
    intro i phase ⟨a, ha⟩
    cases ha
  have hlisted : ∀ i, ¬ m.Listed i := by
    intro i hi
    rcases hi with ⟨phase, hp⟩ | hq
    · cases hp
    · cases hq
  refine ⟨m, ⟨?_, ?_, ?_, ?_, ?_⟩, ?_⟩
  · intro n t hn
    cases hn
  · intro n t i phase hn
    cases hn
  · exact fun _ _ => rfl
  · rfl
  · exact fun _ => rfl
  · constructor
    · exact h.ids
    · exact h.revisionIds
    · exact h.revisionInode
    · exact h.sequence
    · intro c hc
      obtain ⟨r, hr, hid⟩ := h.refRevision c hc
      rw [← hid]
      exact h.sequence r hr
    · intro r hr t ht
      exact (deletedAt_of_mem h.ids hr).trans ht
    · exact fun _ _ _ => holds_contentsOf
    · exact fun _ => contentsOf_refs
    · intro i c hc
      cases hc
    · intro r _ ht
      rcases ht with hl | ⟨phase, hp⟩
      · exact absurd hl (hlisted r.id)
      · exact absurd hp (hat r.id phase)
    · intro r _ hs
      exact absurd hs (hlisted r.id)
    · exact fun c hc _ _ _ => Or.inl hc

/-- Where all rows of other inodes are left, only this one is removed. -/
theorem Removes.eq {before after : FileDb} {i j : ℤ} (h : Removes before after i)
    (hinodes : ∀ r ∈ before.inodes, r.id ≠ j → r ∈ after.inodes)
    (hrevisions : ∀ r ∈ before.fileRevisions, r.inodeId ≠ j →
      ∃ r' ∈ after.fileRevisions, r'.revisionId = r.revisionId) : i = j := by
  by_contra hij
  rcases h with ⟨r, hr, hid, hgone⟩ | ⟨r, hr, hid, hgone⟩
  · rw [← hid] at hij hgone
    exact hgone r (hinodes r hr hij) rfl
  · rw [← hid] at hij
    obtain ⟨r', hr', hid'⟩ := hrevisions r hr hij
    exact hgone r' hr' hid'

theorem fileRevisions_deleteRevisions {db : FileDb} {j : ℤ} {r : FileRevisionRecord}
    (hr : r ∈ db.fileRevisions) (hj : r.inodeId ≠ j) :
    ∃ r' ∈ (deleteRevisions j db).fileRevisions, r'.revisionId = r.revisionId :=
  ⟨_, List.mem_map_of_mem (mem_deleteWhere.mpr ⟨hr, decide_eq_false hj⟩), rfl⟩

/-- A statement of the sweeper removes only the inode it is at. -/
theorem removes_resumeSweeper {i j : ℤ} {phase : DeletePhase} {queue : List ℤ} {s : TrashRun}
    (hsweep : s.sweep = some ⟨j, hardDeleteFrom id j phase, queue⟩)
    (h : Removes s.world.db (resumeSweeper s).world.db i) : i = j := by
  rw [Trash.resumeSweeper, hsweep] at h
  cases phase with
  | refs =>
    apply h.eq
    · exact fun r hr _ => hr
    · exact fun r hr _ => ⟨r, hr, rfl⟩
  | revisions =>
    apply h.eq
    · exact fun r hr _ => hr
    · exact fun r hr hj => fileRevisions_deleteRevisions hr hj
  | inode =>
    cases hchildren : hasChildren j s.world.db with
    | true =>
      simp [hardDeleteFrom, deleteInodeRecord, Prog.execUnless, hchildren,
        TrashRun.observe] at h
      apply h.eq
      · exact fun r hr _ => hr
      · exact fun r hr _ => ⟨r, hr, rfl⟩
    | false =>
      simp [hardDeleteFrom, deleteInodeRecord, Prog.execUnless, hchildren,
        TrashRun.observe] at h
      apply h.eq
      · exact fun r hr hj => mem_deleteWhere.mpr ⟨hr, decide_eq_false hj⟩
      · exact fun r hr hj => fileRevisions_deleteRevisions hr hj

/-- What is removed was there. -/
theorem Removes.exists {before after : FileDb} {i : ℤ} (h : Removes before after i)
    (hinode : ∀ r ∈ before.fileRevisions, ∃ n ∈ before.inodes, n.id = r.inodeId) :
    ∃ n ∈ before.inodes, n.id = i := by
  rcases h with ⟨r, hr, hid, -⟩ | ⟨r, hr, hid, -⟩
  · exact ⟨r, hr, hid⟩
  · rw [← hid]
    exact hinode r hr

theorem TrashInv.sound {s : TrashRun} (h : TrashInv s) : TrashSound s := by
  obtain ⟨m, htracks, htables⟩ := h
  refine ⟨?_, ?_, ?_⟩
  · intro i hremoves
    cases ha : m.actor none with
    | none =>
      have hsweep : s.sweep = none := by
        rw [htracks.sweeper, ha, Option.map_none]
      rw [Trash.resumeSweeper, hsweep] at hremoves
      have heq : i = i + 1 := by
        apply hremoves.eq
        · exact fun r hr _ => hr
        · exact fun r hr _ => ⟨r, hr, rfl⟩
      omega
    | some mark =>
      have hsweep := htracks.sweeper
      rw [ha, Option.map_some] at hsweep
      have hi := removes_resumeSweeper hsweep hremoves
      obtain ⟨n, hn, hid⟩ := hremoves.exists htables.revisionInode
      have hlisted : m.Listed n.id := Or.inl ⟨mark.2, by rw [hid, hi, ha]⟩
      obtain ⟨t, ht, hlt⟩ := htables.swept n hn hlisted
      rw [← hid]
      exact ⟨t, htables.since n hn t ht, hlt.le⟩
  · intro i c hc
    obtain ⟨⟨r, hr, hid, -⟩, hheld, -⟩ := htables.owed i c hc
    exact ⟨⟨r, hr, hid⟩, hheld⟩
  · intro hquiet c hc hrevision
    obtain ⟨r, hr, hid⟩ := hrevision
    exact (htables.registeredRefs c hc r hr hid).resolve_right (htracks.at_quiet hquiet)

/-- In every state of a run under the condition, the sweeper deletes only what has been in the
trash for the grace period, restored files are complete and no revision is left empty. -/
theorem trashSound_of_safe {w : TrashWorld} {ops : List TrashOp} (hdb : FileConstraints w.db)
    (hsafe : GuardedRuns.guarded TrashOp.step TrashOp.Safe ops (TrashRun.start w)) :
    ∀ t ∈ GuardedRuns.states TrashOp.step ops (TrashRun.start w), TrashSound t := by
  intro t ht
  apply TrashInv.sound
  exact GuardedRuns.inv_of_guarded TrashOp.step (fun _ _ => True) TrashOp.Safe TrashInv
    (fun op _ hinv _ hsafe => hinv.step op hsafe) hdb.inv
    (GuardedRuns.guarded_of_forall _ (fun _ _ => trivial) ops _) hsafe t ht

/-- Two files with a revision and a chunk each; the first one has expired in the trash. -/
def expiredTrash : TrashWorld :=
  { db :=
      { inodes :=
          [{ id := 1, parentId := none, name := "a", kind := "FILE", size := 3, deletedAt := some 0 },
            { id := 2, parentId := none, name := "b", kind := "FILE", size := 3, deletedAt := none }]
        fileRevisions :=
          [{ revisionId := 1, inodeId := 1, createdAt := 0, size := 3, isCurrent := true,
             immutableUntil := none, deviceId := none, parentRevisionId := none, origin := "local",
             conflictReason := none },
            { revisionId := 2, inodeId := 2, createdAt := 0, size := 3, isCurrent := true,
              immutableUntil := none, deviceId := none, parentRevisionId := some 1,
              origin := "local", conflictReason := none }]
        revisionSequence := 2
        chunkRefs :=
          [{ id := 1, revisionId := 1, chunkId := [1], fileOffset := 0, size := 3 },
            { id := 2, revisionId := 2, chunkId := [2], fileOffset := 0, size := 3 }]
        chunkRefSequence := 2 }
    now := softDeleteGraceMs + 1 }

theorem fileConstraints_expiredTrash : FileConstraints expiredTrash.db := by
  constructor <;> decide

/-- The only call is a restore of an inode that is there and not on the list of the sweeper. -/
theorem safe_resume_restore {s : TrashRun} {n : ℕ} {i : ℤ}
    (hcalls : s.calls.map (·.call) = [.restore i])
    (hsweep : ∀ l ∈ s.sweep.map fun sw => sw.inodeId :: sw.queue, i ∉ l)
    (hrow : (inodeOf i s.world.db).isSome) : TrashOp.Safe (.resume n) s := by
  have hcall : ∀ t ∈ s.calls, t.call = .restore i := by
    intro t ht
    have hmem : t.call ∈ s.calls.map (·.call) := List.mem_map_of_mem ht
    rw [hcalls] at hmem
    exact List.mem_singleton.mp hmem
  have hfree : ¬ Targeted i s := by
    intro htarget
    rcases htarget with ⟨sw, hsw, hi⟩ | ⟨phase, ⟨sw, hsw, hi, -⟩ | ⟨t, ht, hpurge, -⟩⟩
    · rw [hsw] at hsweep
      exact hsweep _ rfl (by simpa [eq_comm] using hi)
    · rw [hsw] at hsweep
      exact hsweep _ rfl (by simp [hi])
    · rw [hcall t ht] at hpurge
      cases hpurge
  intro t ht
  have hrestore := hcall t (List.mem_of_getElem? ht)
  constructor
  · intro j name hj _
    rw [hrestore] at hj
    cases hj
    obtain ⟨r, hr⟩ := Option.isSome_iff_exists.mp hrow
    exact ⟨⟨r, List.mem_of_find?_eq_some hr, by simpa using List.find?_some hr⟩, hfree⟩
  · intro j hj
    rw [hrestore] at hj
    cases hj

/-- The inode that the sweeper is at has no children. -/
theorem safe_resumeSweep {s : TrashRun}
    (hchildren : ∀ i ∈ s.sweep.map (·.inodeId), hasChildren i s.world.db = false) :
    TrashOp.Safe .resumeSweep s := by
  intro sw hsw _
  apply hchildren
  rw [hsw]
  rfl

/-- The second file goes to the trash and is restored while the sweeper deletes the first. -/
theorem trashSound_of_sweep_and_restore :
    let ops := [.softDelete 2, .startSweep, .callRestore 1 2, .resume 0, .resumeSweep, .resume 0,
      .resumeSweep, .resume 0, .resume 0, .resumeSweep]
    ∀ t ∈ GuardedRuns.states TrashOp.step ops (TrashRun.start expiredTrash), TrashSound t := by
  intro ops
  apply trashSound_of_safe fileConstraints_expiredTrash
  refine ⟨trivial, trivial, trivial, safe_resume_restore (i := 2) ?_ ?_ ?_, safe_resumeSweep ?_,
    safe_resume_restore (i := 2) ?_ ?_ ?_, safe_resumeSweep ?_,
    safe_resume_restore (i := 2) ?_ ?_ ?_, safe_resume_restore (i := 2) ?_ ?_ ?_,
    safe_resumeSweep ?_, trivial⟩
  all_goals decide +kernel

/-- The update of a restore comes between the listing of the sweeper and its deletes, and the
file that was restored loses its chunks. -/
theorem not_trashSound_of_sweep : ¬ ∀ (w : TrashWorld) (ops : List TrashOp),
    FileConstraints w.db →
    ∀ t ∈ GuardedRuns.states TrashOp.step ops (TrashRun.start w), TrashSound t := by
  intro h
  let ops : List TrashOp := [.startSweep, .callRestore 1 1, .resume 0, .resume 0, .resume 0,
    .resume 0, .resumeSweep]
  have hsound := h expiredTrash ops fileConstraints_expiredTrash _
    (GuardedRuns.mem_states_last TrashOp.step ops (TrashRun.start expiredTrash))
  have howed : (ops.foldl (fun t o => TrashOp.step o t) (TrashRun.start expiredTrash)).owed 1 =
      some (contentsOf 1 expiredTrash.db) := by
    decide +kernel
  have hrefs : (ops.foldl (fun t o => TrashOp.step o t)
      (TrashRun.start expiredTrash)).world.db.chunkRefs.map (·.revisionId) = [2] := by
    decide +kernel
  have hlost := (hsound.2.1 1 _ howed).2.2
    { id := 1, revisionId := 1, chunkId := [1], fileOffset := 0, size := 3 } (by decide)
  have hmem := List.mem_map_of_mem (f := (·.revisionId)) hlost
  rw [hrefs] at hmem
  cases List.mem_singleton.mp hmem

end Trash

end OmniDrive
