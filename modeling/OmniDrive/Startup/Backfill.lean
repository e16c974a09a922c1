import OmniDrive.Startup.Runs

/-!
# The migration of the user identifiers

A migration copies a legacy user under a new identifier, renames it wherever a table refers to it
and deletes the old row, one statement after the other and with the foreign keys switched off. The
copy leaves out the refresh tokens, and a stop anywhere leaves the foreign keys off.
-/

namespace OmniDrive

open StatementProgram

variable {P : Primitives} {α : Type}

/-- The tables, and the enforcement of foreign keys on the connection. -/
structure MigrationWorld (P : Primitives) where
  startup : StartupWorld P
  foreignKeys : Bool := true

/-- A program of the migration. -/
abbrev MigrationProg (P : Primitives) (α : Type) := Prog (MigrationWorld P) StartupError α

def onStartup (p : StartupProg P α) : MigrationProg P α :=
  p.zoom (·.startup) fun startup w => { w with startup }

/-- `PRAGMA foreign_keys`. -/
def pragmaForeignKeys (foreignKeys : Bool) : MigrationProg P Unit :=
  Prog.exec fun w => { w with foreignKeys }

namespace Migration

/-- `backfill_uuid_user_ids` with its pragmas. -/
def backfillUuidUserIds (env : StartupEnv) : MigrationProg P ℕ := do
  let oldIds ← Prog.query fun w => legacyUserIds w.startup.db
  if oldIds = [] then pure 0
  else do
    pragmaForeignKeys false
    onStartup (backfillUsers env 1 oldIds)
    pragmaForeignKeys true
    pure oldIds.length

/-! ## What is asked of a migration -/

/-- Every column of every table that refers to a user. -/
def renameReferences (rename : String → String) (w : StartupWorld P) : StartupWorld P where
  access :=
    { vault := { w.access.vault with
        db := { w.db with
          devices := w.db.devices.map fun d => { d with userId := rename d.userId }
          vaultMembers := (w.db.vaultMembers.map fun m => { m with userId := rename m.userId }).map
            fun m => { m with invitedBy := m.invitedBy.map rename } } }
      sessions := w.access.sessions.map fun s => { s with userId := rename s.userId }
      inviteCodes := w.access.inviteCodes.map fun c => { c with createdBy := rename c.createdBy } }
  auditLogs := (w.auditLogs.map fun a => { a with actorUserId := a.actorUserId.map rename }).map
    fun a => { a with targetUserId := a.targetUserId.map rename }
  syncPolicies := w.syncPolicies

/-- The world with other rows of `users`. -/
def withUsers (w : StartupWorld P) (users : List (UserRecord P)) : StartupWorld P :=
  w.withDb { w.db with users }

/-- Every user has its row under its new identifier, with all other columns as they were, and every
reference names the new identifier. -/
structure Migrated (rename : String → String) (w w' : StartupWorld P) : Prop where
  users : w'.db.users.Perm (w.db.users.map fun u => { u with userId := rename u.userId })
  references : w' = withUsers (renameReferences rename w) w'.db.users

/-- The new identifier of a user; the legacy ones get those drawn from a position on. -/
def newIdOf (env : StartupEnv) (k : ℕ) (oldIds : List String) (userId : String) : String :=
  if userId ∈ oldIds then env.newUserId (k + oldIds.idxOf userId) else userId

/-- The renaming of the legacy users of a database. -/
def newIds (env : StartupEnv) (w : StartupWorld P) : String → String :=
  newIdOf env 1 (legacyUserIds w.db)

/-- A migration that returns `Ok` has migrated all legacy users to fresh identifiers, the foreign
keys are enforced again, and a second one changes nothing. -/
def LosesNothing (env : StartupEnv) (w : StartupWorld P) : Prop :=
  ∀ n w', (backfillUuidUserIds env).run { startup := w } = (.ok n, w') →
    (∀ userId ∈ legacyUserIds w.db, newIds env w userId ∉ w.db.users.map (·.userId)) ∧
      Migrated (newIds env w) w w'.startup ∧ w'.foreignKeys = true ∧
        ∀ env', (backfillUuidUserIds env').run w' = (.ok 0, w')

/-- Wherever it ends or is cut off, nothing or everything has been migrated and the foreign keys are
enforced. -/
def Atomic (env : StartupEnv) (w : StartupWorld P) : Prop :=
  ∀ n, ((backfillUuidUserIds env).cut n { startup := w }).foreignKeys = true ∧
    (((backfillUuidUserIds env).cut n { startup := w }).startup = w ∨
      Migrated (newIds env w) w ((backfillUuidUserIds env).cut n { startup := w }).startup)

/-! ## The pragmas -/

section Pragmas

variable {env : StartupEnv} {w : MigrationWorld P}

theorem run_of_none (hnone : legacyUserIds w.startup.db = []) :
    (backfillUuidUserIds env).run w = (.ok 0, w) := by
  rw [backfillUuidUserIds, Prog.run_query_bind, if_pos hnone]
  rfl

/-- The loop over the legacy users runs without foreign keys; they come back only behind it. -/
theorem run_of_some (hsome : legacyUserIds w.startup.db ≠ []) :
    (backfillUuidUserIds env).run w =
      match (backfillUsers env 1 (legacyUserIds w.startup.db)).run w.startup with
      | (.ok (), startup) => (.ok (legacyUserIds w.startup.db).length, { startup })
      | (.error e, startup) => (.error e, { startup, foreignKeys := false }) := by
  rw [backfillUuidUserIds, Prog.run_query_bind, if_neg hsome, pragmaForeignKeys, Prog.run_exec_bind]
  have hloop : (onStartup (backfillUsers env 1 (legacyUserIds w.startup.db))).run
      { w with foreignKeys := false } =
      (((backfillUsers env 1 (legacyUserIds w.startup.db)).run w.startup).1,
        { startup := ((backfillUsers env 1 (legacyUserIds w.startup.db)).run w.startup).2
          foreignKeys := false }) :=
    Prog.run_zoom (fun w : MigrationWorld P => w.startup) (fun startup w => { w with startup })
      (fun _ _ => rfl) (fun _ _ _ => rfl) (fun _ => rfl) _ _
  cases hrun : (backfillUsers env 1 (legacyUserIds w.startup.db)).run w.startup with
  | mk r startup =>
    rw [hrun] at hloop
    cases r with
    | ok a => rw [Prog.run_bind_of_ok hloop]; rfl
    | error e => rw [Prog.run_bind_of_error hloop]

/-- The pragmas aside, it is the migration of a startup. -/
theorem run_backfillUuidUserIds (env : StartupEnv) (w : MigrationWorld P) :
    (OmniDrive.backfillUuidUserIds env).run w.startup =
      (((backfillUuidUserIds env).run w).1, ((backfillUuidUserIds env).run w).2.startup) := by
  by_cases hnone : legacyUserIds w.startup.db = []
  · rw [run_of_none hnone, (backfillUuidUserIds_of_none env hnone).1]
  · rw [run_of_some hnone, OmniDrive.backfillUuidUserIds, Prog.run_query_bind, if_neg hnone, pragma,
      Prog.run_exec_bind, id]
    cases hrun : (backfillUsers env 1 (legacyUserIds w.startup.db)).run w.startup with
    | mk r startup =>
      cases r with
      | ok a => rw [Prog.run_bind_of_ok hrun]; rfl
      | error e => rw [Prog.run_bind_of_error hrun]

/-- Cut off behind the first pragma, a migration leaves the foreign keys off. -/
theorem foreignKeys_cut (env : StartupEnv) (w : MigrationWorld P)
    (hsome : legacyUserIds w.startup.db ≠ []) :
    ((backfillUuidUserIds env).cut 2 w).foreignKeys = false := by
  change ((if legacyUserIds w.startup.db = [] then (pure 0 : MigrationProg P ℕ) else _).cut 1
    w).foreignKeys = false
  rw [if_neg hsome]
  change (Prog.cut 0 _ { w with foreignKeys := false }).foreignKeys = false
  rw [Prog.cut_zero]

end Pragmas

/-- Every stop behind the first statement leaves the foreign keys off, if there is a legacy user. -/
theorem atomic_iff (env : StartupEnv) (w : StartupWorld P) :
    Atomic env w ↔ legacyUserIds w.db = [] := by
  constructor
  · intro h
    by_contra hsome
    have hoff := foreignKeys_cut env { startup := w } hsome
    rw [(h 2).1] at hoff
    cases hoff
  · intro hnone n
    have hsame : (backfillUuidUserIds env).cut n ({ startup := w } : MigrationWorld P) =
        { startup := w } := by
      rcases n with _ | n
      · exact Prog.cut_zero _ _
      · have hcount : (backfillUuidUserIds env).count ({ startup := w } : MigrationWorld P) = 1 := by
          rw [backfillUuidUserIds, Prog.count_query_bind, if_pos hnone]
          rfl
        rw [Prog.cut_of_count_le (by omega), run_of_none hnone]
    rw [hsame]
    exact ⟨rfl, .inl rfl⟩

/-! ## The new identifiers -/

section NewIds

variable {env : StartupEnv} {k : ℕ} {oldId : String} {rest : List String}

theorem newIdOf_nil (env : StartupEnv) (k : ℕ) : newIdOf env k [] = id := by
  funext userId
  rw [newIdOf, if_neg List.not_mem_nil, id]

/-- The first user is renamed, and then the others, none of which has the new identifier. -/
theorem newIdOf_cons (hold : oldId ∉ rest) (hnew : env.newUserId k ∉ rest) :
    newIdOf env k (oldId :: rest) =
      newIdOf env (k + 1) rest ∘ renameUserId oldId (env.newUserId k) := by
  funext userId
  rw [Function.comp_apply, newIdOf, newIdOf, renameUserId]
  by_cases hid : userId = oldId
  · subst hid
    rw [if_pos List.mem_cons_self, if_pos rfl, if_neg hnew, List.idxOf_cons_self, Nat.add_zero]
  · have hindex : k + (rest.idxOf userId).succ = k + 1 + rest.idxOf userId := by omega
    simp only [hid, List.mem_cons, false_or, if_false, List.idxOf_cons_ne _ (Ne.symm hid), hindex]

theorem newIdOf_of_ne {userId : String} (hold : oldId ∉ rest) (hnew : env.newUserId k ∉ rest)
    (hid : userId ≠ oldId) :
    newIdOf env k (oldId :: rest) userId = newIdOf env (k + 1) rest userId := by
  rw [newIdOf_cons hold hnew, Function.comp_apply, renameUserId, if_neg hid]

end NewIds

section References

theorem renameReferences_comp (f g : String → String) (w : StartupWorld P) :
    renameReferences g (renameReferences f w) = renameReferences (g ∘ f) w := by
  simp [renameReferences, StartupWorld.db, Function.comp_def]

theorem renameReferences_id (w : StartupWorld P) : renameReferences id w = w := by
  simp [renameReferences, StartupWorld.db]

theorem renameReferences_withUsers (rename : String → String) (w : StartupWorld P)
    (users : List (UserRecord P)) :
    renameReferences rename (withUsers w users) = withUsers (renameReferences rename w) users := rfl

/-- One legacy user is a renaming of all references, with the copy in place of its row. -/
theorem afterUser_eq (oldId newId : String) (u : UserRecord P) (w : StartupWorld P) :
    afterUser oldId newId u w = withUsers (renameReferences (renameUserId oldId newId) w)
      ((w.db.users ++ [copyOf newId u]).filter (·.userId ≠ oldId)) := rfl

end References

/-! ## The loop over the legacy users -/

/-- What becomes of the row of a user. -/
def migratedRow (rename : String → String) (u : UserRecord P) : UserRecord P :=
  if isLegacyUserId u.userId then copyOf (rename u.userId) u else u

section Loop

variable {env : StartupEnv} {w : StartupWorld P} {k : ℕ} {oldId : String} {rest : List String}
  {u : UserRecord P}

/-- The facts about the first of the legacy users. -/
theorem firstLegacy (hkey : (w.db.users.map (·.userId)).Nodup)
    (hlegacy : legacyUserIds w.db = oldId :: rest) (hfresh : FreshIds env k w) :
    (∃ u, w.db.users.find? (·.userId = oldId) = some u) ∧ env.newUserId k ≠ oldId ∧
      oldId ∉ rest ∧ env.newUserId k ∉ rest ∧ isLegacyUserId oldId = true := by
  have hmem : ∀ userId ∈ oldId :: rest, userId ∈ w.db.users.map (·.userId) := by
    intro userId huser
    rw [← hlegacy] at huser
    exact List.mem_of_mem_filter huser
  have hunused := hfresh.unused k (Nat.le_refl k)
  have hnodup : (oldId :: rest).Nodup := hlegacy ▸ hkey.filter isLegacyUserId
  have hlegacyId : oldId ∈ legacyUserIds w.db := hlegacy ▸ List.mem_cons_self
  refine ⟨exists_of_mem_legacyUserIds hlegacyId, ?_, (List.nodup_cons.mp hnodup).1, ?_,
    (List.mem_filter.mp hlegacyId).2⟩
  · intro heq
    exact hunused (heq ▸ hmem oldId List.mem_cons_self)
  · intro hrest
    exact hunused (hmem _ (List.mem_cons_of_mem _ hrest))

/-- The keys of the users stay apart. -/
theorem nodup_afterUser (hkey : (w.db.users.map (·.userId)).Nodup) {newId : String}
    (hne : newId ≠ oldId) (hunused : newId ∉ w.db.users.map (·.userId)) :
    ((afterUser oldId newId u w).db.users.map (·.userId)).Nodup := by
  rw [users_afterUser_eq hne, List.map_append, List.nodup_append]
  refine ⟨hkey.sublist (List.filter_sublist.map _), List.nodup_singleton _, ?_⟩
  intro a ha b hb hab
  obtain ⟨v, hv, rfl⟩ := List.mem_map.mp ha
  obtain rfl : b = newId := List.mem_singleton.mp hb
  exact hunused (hab ▸ List.mem_map_of_mem (List.mem_of_mem_filter hv))

/-- The rows of one user and of the others. -/
theorem users_perm (hkey : (w.db.users.map (·.userId)).Nodup)
    (hu : w.db.users.find? (·.userId = oldId) = some u) :
    w.db.users.Perm (u :: w.db.users.filter (·.userId ≠ oldId)) := by
  have hmem := List.mem_of_find?_eq_some hu
  have hid : u.userId = oldId := by simpa using List.find?_some hu
  have hnodup : w.db.users.Nodup := hkey.of_map
  have hapart : u ∉ w.db.users.filter (·.userId ≠ oldId) := by simp [hid]
  rw [List.perm_ext_iff_of_nodup hnodup (List.nodup_cons.mpr ⟨hapart, hnodup.filter _⟩)]
  intro v
  rw [List.mem_cons, List.mem_filter, decide_eq_true_eq]
  constructor
  · intro hv
    by_cases hvid : v.userId = oldId
    · exact .inl (List.inj_on_of_nodup_map hkey hv hmem (hvid.trans hid.symm))
    · exact .inr ⟨hv, hvid⟩
  · rintro (rfl | ⟨hv, -⟩)
    · exact hmem
    · exact hv

/-- Where no legacy user has an account elsewhere, all of them are migrated. -/
theorem run_backfillUsers (ids : List String) (k : ℕ) (w : StartupWorld P)
    (hkey : (w.db.users.map (·.userId)).Nodup) (hlegacy : legacyUserIds w.db = ids)
    (hfresh : FreshIds env k w)
    (hsubject : ∀ u ∈ w.db.users, isLegacyUserId u.userId = true → u.authSubject = none) :
    ∃ w', (backfillUsers env k ids).run w = (.ok (), w') ∧
      w' = withUsers (renameReferences (newIdOf env k ids) w) w'.db.users ∧
      w'.db.users.Perm (w.db.users.map (migratedRow (newIdOf env k ids))) ∧
      legacyUserIds w'.db = [] := by
  induction ids generalizing k w with
  | nil =>
    refine ⟨w, rfl, ?_, ?_, hlegacy⟩
    · rw [newIdOf_nil, renameReferences_id]
      rfl
    · rw [newIdOf_nil, List.map_congr_left (g := id) ?_, List.map_id]
      intro u hu
      have hno : ¬ isLegacyUserId u.userId = true := fun h => by
        have hmem : u.userId ∈ legacyUserIds w.db :=
          List.mem_filter.mpr ⟨List.mem_map_of_mem hu, h⟩
        rw [hlegacy] at hmem
        cases hmem
      rw [migratedRow, if_neg hno, id]
  | cons oldId rest ih =>
    obtain ⟨⟨u, hu⟩, hne, hold, hnew, hisLegacy⟩ := firstLegacy hkey hlegacy hfresh
    have humem := List.mem_of_find?_eq_some hu
    have huid : u.userId = oldId := by simpa using List.find?_some hu
    have hunused := hfresh.unused k (Nat.le_refl k)
    obtain ⟨hrun, -⟩ := run_backfillUser hu hunused (hsubject u humem (by rw [huid, hisLegacy]))
    have husers := users_afterUser_eq (w := w) (u := u) hne
    obtain ⟨w', hrest, hreferences, hperm, hnone⟩ := ih (k + 1)
      (afterUser oldId (env.newUserId k) u w) (nodup_afterUser hkey hne hunused)
      (legacyUserIds_afterUser hkey hlegacy (hfresh.notLegacy k) hne) (hfresh.afterUser hne) (by
        intro v hv hlegacyV
        rw [husers] at hv
        rcases List.mem_append.mp hv with hv | hv
        · exact hsubject v (List.mem_of_mem_filter hv) hlegacyV
        · obtain rfl := List.mem_singleton.mp hv
          rw [userId_copyOf, hfresh.notLegacy k] at hlegacyV
          cases hlegacyV)
    refine ⟨w', ?_, ?_, ?_, hnone⟩
    · rw [backfillUsers, Prog.run_bind_of_ok hrun, hrest]
    · rw [hreferences, afterUser_eq, renameReferences_withUsers, renameReferences_comp,
        newIdOf_cons hold hnew]
      rfl
    · rw [husers, List.map_append, List.map_singleton] at hperm
      have hcopy : migratedRow (newIdOf env (k + 1) rest) (copyOf (env.newUserId k) u) =
          copyOf (env.newUserId k) u := by
        rw [migratedRow, userId_copyOf, hfresh.notLegacy k, if_neg Bool.false_ne_true]
      have hfirst : migratedRow (newIdOf env k (oldId :: rest)) u =
          copyOf (env.newUserId k) u := by
        rw [migratedRow, huid, if_pos hisLegacy, newIdOf, if_pos List.mem_cons_self,
          List.idxOf_cons_self, Nat.add_zero]
      have hothers : (w.db.users.filter (·.userId ≠ oldId)).map
          (migratedRow (newIdOf env (k + 1) rest)) =
          (w.db.users.filter (·.userId ≠ oldId)).map
            (migratedRow (newIdOf env k (oldId :: rest))) := by
        apply List.map_congr_left
        intro v hv
        rw [migratedRow, migratedRow,
          newIdOf_of_ne hold hnew (of_decide_eq_true (List.mem_filter.mp hv).2)]
      rw [hcopy, hothers] at hperm
      refine hperm.trans (List.perm_append_singleton _ _ |>.trans ?_)
      rw [← hfirst, ← List.map_cons]
      exact ((users_perm hkey hu).map _).symm

/-- A legacy user with an account elsewhere ends the migration with an error. -/
theorem run_backfillUsers_refused (ids : List String) (k : ℕ) (w : StartupWorld P)
    (hkey : (w.db.users.map (·.userId)).Nodup) (hlegacy : legacyUserIds w.db = ids)
    (hfresh : FreshIds env k w)
    (hsubject : ∃ u ∈ w.db.users, isLegacyUserId u.userId = true ∧ u.authSubject.isSome) :
    ∃ e w', (backfillUsers env k ids).run w = (.error e, w') := by
  induction ids generalizing k w with
  | nil =>
    obtain ⟨u, hu, hisLegacy, -⟩ := hsubject
    have hmem : u.userId ∈ legacyUserIds w.db :=
      List.mem_filter.mpr ⟨List.mem_map_of_mem hu, hisLegacy⟩
    rw [hlegacy] at hmem
    cases hmem
  | cons oldId rest ih =>
    obtain ⟨⟨u, hu⟩, hne, hold, hnew, hisLegacy⟩ := firstLegacy hkey hlegacy hfresh
    have hunused := hfresh.unused k (Nat.le_refl k)
    cases hfirst : u.authSubject with
    | some subject =>
      have hsome : u.authSubject.isSome := by rw [hfirst]; rfl
      refine ⟨.db .uniqueViolation, w, ?_⟩
      rw [backfillUsers, Prog.run_bind_of_error (backfillUser_refused hu hsome _).1]
    | none =>
      obtain ⟨hrun, -⟩ := run_backfillUser hu hunused hfirst
      obtain ⟨v, hv, hvlegacy, hvsubject⟩ := hsubject
      have hvid : v.userId ≠ oldId := by
        intro heq
        have huid : u.userId = oldId := by simpa using List.find?_some hu
        have hsame : v = u :=
          List.inj_on_of_nodup_map hkey hv (List.mem_of_find?_eq_some hu) (heq.trans huid.symm)
        rw [hsame, hfirst] at hvsubject
        cases hvsubject
      obtain ⟨e, w', hrest⟩ := ih (k + 1)
        (afterUser oldId (env.newUserId k) u w) (nodup_afterUser hkey hne hunused)
        (legacyUserIds_afterUser hkey hlegacy (hfresh.notLegacy k) hne) (hfresh.afterUser hne)
        ⟨v, by
          rw [users_afterUser_eq hne]
          exact List.mem_append_left _ (List.mem_filter.mpr ⟨hv, by simpa using hvid⟩),
          hvlegacy, hvsubject⟩
      refine ⟨e, w', ?_⟩
      rw [backfillUsers, Prog.run_bind_of_ok hrun, hrest]

end Loop

section Losses

variable {env : StartupEnv} {w : StartupWorld P}

/-- A legacy user has no refresh token, neither in plaintext nor sealed. -/
def NoTokens (w : StartupWorld P) : Prop :=
  ∀ u ∈ w.db.users, isLegacyUserId u.userId = true →
    u.googleRefreshToken = none ∧ u.googleRefreshTokenCiphertext = none

/-- A legacy user has an account at an identity provider, whose key refuses the copy. -/
def HasSubject (w : StartupWorld P) : Prop :=
  ∃ u ∈ w.db.users, isLegacyUserId u.userId = true ∧ u.authSubject.isSome

theorem newIds_of_not_legacy {u : UserRecord P} (h : ¬ isLegacyUserId u.userId = true) :
    newIds env w u.userId = u.userId := by
  have hno : u.userId ∉ legacyUserIds w.db := fun hmem => h (List.mem_filter.mp hmem).2
  rw [newIds, newIdOf, if_neg hno]

/-- The identifier of a legacy user is one of those drawn. -/
theorem newIds_of_mem (env : StartupEnv) {userId : String} (h : userId ∈ legacyUserIds w.db) :
    ∃ i, 1 ≤ i ∧ newIds env w userId = env.newUserId i := by
  refine ⟨1 + (legacyUserIds w.db).idxOf userId, Nat.le_add_right _ _, ?_⟩
  rw [newIds, newIdOf, if_pos h]

/-- The rows are migrated without a loss exactly where there are no tokens. -/
theorem migratedRow_perm_iff (hfresh : FreshIds env 1 w) :
    (w.db.users.map (migratedRow (newIds env w))).Perm
        (w.db.users.map fun u => { u with userId := newIds env w u.userId }) ↔ NoTokens w := by
  constructor
  · intro hperm u hu hlegacy
    have hmem : u.userId ∈ legacyUserIds w.db :=
      List.mem_filter.mpr ⟨List.mem_map_of_mem hu, hlegacy⟩
    obtain ⟨v, hv, hsame⟩ := List.mem_map.mp (hperm.mem_iff.mpr (List.mem_map_of_mem hu))
    by_cases hvlegacy : isLegacyUserId v.userId = true
    · rw [migratedRow, if_pos hvlegacy] at hsame
      exact ⟨(congrArg UserRecord.googleRefreshToken hsame).symm,
        (congrArg UserRecord.googleRefreshTokenCiphertext hsame).symm⟩
    · -- a row that stays as it is has none of the new identifiers
      rw [migratedRow, if_neg hvlegacy] at hsame
      obtain ⟨i, hi, hnew⟩ := newIds_of_mem env hmem
      have hid : v.userId = env.newUserId i := (congrArg UserRecord.userId hsame).trans hnew
      exact absurd (hid ▸ List.mem_map_of_mem hv) (hfresh.unused i hi)
  · intro htokens
    rw [List.map_congr_left fun u hu => ?_]
    by_cases hlegacy : isLegacyUserId u.userId = true
    · obtain ⟨hplain, hsealed⟩ := htokens u hu hlegacy
      rw [migratedRow, if_pos hlegacy, copyOf]
      cases u
      simp_all
    · rw [migratedRow, if_neg hlegacy, newIds_of_not_legacy hlegacy]

/-- Where no legacy user has an account elsewhere, the migration returns `Ok`. -/
theorem run_ok (hkey : (w.db.users.map (·.userId)).Nodup) (hfresh : FreshIds env 1 w)
    (hsubject : ¬ HasSubject w) :
    ∃ n w', (backfillUuidUserIds env).run { startup := w } = (.ok n, { startup := w' }) ∧
      w' = withUsers (renameReferences (newIds env w) w) w'.db.users ∧
      w'.db.users.Perm (w.db.users.map (migratedRow (newIds env w))) ∧
      legacyUserIds w'.db = [] := by
  have hnone : ∀ u ∈ w.db.users, isLegacyUserId u.userId = true → u.authSubject = none := by
    intro u hu hlegacy
    rw [← Option.not_isSome_iff_eq_none]
    exact fun hsome => hsubject ⟨u, hu, hlegacy, hsome⟩
  obtain ⟨w', hrun, hmigrated⟩ := run_backfillUsers _ 1 w hkey rfl hfresh hnone
  by_cases hempty : legacyUserIds w.db = []
  · rw [hempty] at hrun
    obtain rfl : w = w' := congrArg Prod.snd hrun
    exact ⟨0, w, run_of_none hempty, hmigrated⟩
  · refine ⟨(legacyUserIds w.db).length, w', ?_, hmigrated⟩
    rw [run_of_some hempty, hrun]

/-- A migration that returns `Ok` loses nothing but refresh tokens. -/
theorem losesNothing_iff (hkey : (w.db.users.map (·.userId)).Nodup) (hfresh : FreshIds env 1 w) :
    LosesNothing env w ↔ HasSubject w ∨ NoTokens w := by
  by_cases hsubject : HasSubject w
  · refine ⟨fun _ => .inl hsubject, fun _ n w' hrun => ?_⟩
    obtain ⟨e, w'', herror⟩ := run_backfillUsers_refused _ 1 w hkey rfl hfresh hsubject
    have hsome : legacyUserIds w.db ≠ [] := by
      obtain ⟨u, hu, hlegacy, -⟩ := hsubject
      exact List.ne_nil_of_mem (List.mem_filter.mpr ⟨List.mem_map_of_mem hu, hlegacy⟩)
    rw [run_of_some hsome, herror] at hrun
    cases hrun
  · obtain ⟨n, w', hrun, hreferences, hperm, hnone⟩ := run_ok hkey hfresh hsubject
    rw [or_iff_right hsubject, ← migratedRow_perm_iff hfresh]
    constructor
    · intro h
      obtain ⟨-, hmigrated, -, -⟩ := h n _ hrun
      exact hperm.symm.trans hmigrated.users
    · intro htokens m t hrun'
      rw [hrun] at hrun'
      obtain rfl : { startup := w' } = t := congrArg Prod.snd hrun'
      refine ⟨fun userId hmem => ?_, ⟨hperm.trans htokens, hreferences⟩, rfl,
        fun env' => run_of_none hnone⟩
      obtain ⟨i, hi, hnew⟩ := newIds_of_mem env hmem
      rw [hnew]
      exact hfresh.unused i hi

end Losses

/-! ## A legacy owner with and without a refresh token -/

/-- A database with one legacy owner. -/
def legacyOwner (token : Option String) : StartupWorld symbolic where
  access :=
    { vault := { db := { users := [{ userId := "owner-1", googleRefreshToken := token }] }
                 inner := none
                 draws := 0 } }

theorem legacyOwner_fresh (token : Option String) :
    FreshIds (machineEnv 'u') 1 (legacyOwner token) := by
  have h := machineEnv_fresh 'u' (by decide) (w := legacyOwner token) (by
    intro userId hmem
    obtain rfl : userId = "owner-1" := List.mem_singleton.mp hmem
    decide)
  exact ⟨h.injective, h.notLegacy, fun i hi => h.unused i (Nat.zero_le i)⟩

end Migration

end OmniDrive
