import OmniDrive.Library.GuardedRuns
import OmniDrive.Startup.Identity

/-!
# The identity chain

The device, its user and the membership of the user in the current vault. A start re-establishes
the chain and is then a start like any other, unless an earlier one was stopped between the three
inserts of the owner, or between the two updates that rename a legacy user, or the vault came only
after its owner.
-/

namespace OmniDrive

open StatementProgram GuardedRuns Tables

variable {P : Primitives}

/-! ## The tables of the identity -/

/-- What the chain is about: identifiers of the vault, of the device and of the users, the devices
with their users, and the members. -/
structure IdentityTables where
  vaultId : Option String
  deviceId : Option String
  userIds : List String
  devices : List (String × String)
  members : List VaultMemberRecord

namespace IdentityTables

/-- The identifier in use, also while there is no vault. -/
def currentVaultId (t : IdentityTables) : String := t.vaultId.getD "local-vault"

/-- The foreign keys, and the key of the users. -/
structure Consistent (t : IdentityTables) : Prop where
  users : t.userIds.Nodup
  devices : ∀ d ∈ t.devices, d.2 ∈ t.userIds
  members : ∀ m ∈ t.members, m.userId ∈ t.userIds

/-- A membership as the migration adds it. -/
def isMigratedOwner (vaultId : String) (m : VaultMemberRecord) : Bool :=
  isOwnerOf vaultId m && m.invitedBy.isNone

/-- There is one owner, and the device belongs to a member where it is registered. -/
structure Chain (vaultId : String) (t : IdentityTables) : Prop where
  identity : t.deviceId ≠ none
  owner : t.members.countP (isMigratedOwner vaultId) = 1
  bound : ∀ d ∈ t.devices, t.deviceId = some d.1 →
    ∃ m ∈ t.members, m.userId = d.2 ∧ m.vaultId = vaultId

/-- The chain can be completed: nobody is there yet, or only the device is missing. -/
def Settled (t : IdentityTables) : Prop :=
  t.Consistent ∧ (t.userIds = [] ∨ t.Chain t.currentVaultId)

/-- The chain of the device is complete. -/
def Bound (t : IdentityTables) : Prop :=
  ∃ d ∈ t.devices, t.deviceId = some d.1 ∧
    ∃ m ∈ t.members, m.userId = d.2 ∧ m.vaultId = t.currentVaultId

/-- Without users, nothing refers to them. -/
theorem Consistent.empty {t : IdentityTables} (h : t.Consistent) (hnone : t.userIds = []) :
    t.devices = [] ∧ t.members = [] := by
  constructor
  · rw [List.eq_nil_iff_forall_not_mem]
    intro d hd
    have hmem := h.devices d hd
    rw [hnone] at hmem
    cases hmem
  · rw [List.eq_nil_iff_forall_not_mem]
    intro m hm
    have hmem := h.members m hm
    rw [hnone] at hmem
    cases hmem

/-- The owner of a chain is a member. -/
theorem Chain.exists_owner {t : IdentityTables} {vaultId : String} (h : t.Chain vaultId) :
    ∃ m ∈ t.members, isOwnerOf vaultId m = true := by
  have hpos : 0 < t.members.countP (isMigratedOwner vaultId) := by
    rw [h.owner]
    exact Nat.one_pos
  obtain ⟨m, hm, howner⟩ := List.countP_pos_iff.mp hpos
  rw [isMigratedOwner, Bool.and_eq_true] at howner
  exact ⟨m, hm, howner.1⟩

/-- The tables with the owner of the migration. -/
def withOwner (userId deviceId vaultId : String) (joinedAt : ℤ) (t : IdentityTables) :
    IdentityTables :=
  { t with
    userIds := t.userIds ++ [userId]
    devices := t.devices ++ [(deviceId, userId)]
    members := t.members ++
      [{ userId, vaultId, role := "owner", invitedBy := none, joinedAt }] }

theorem Settled.withOwner {t : IdentityTables} (h : t.Settled) (hnone : t.userIds = [])
    {userId deviceId : String} (hdevice : t.deviceId = some deviceId) (joinedAt : ℤ) :
    (t.withOwner userId deviceId t.currentVaultId joinedAt).Settled := by
  obtain ⟨hdevices, hmembers⟩ := h.1.empty hnone
  refine ⟨⟨?_, ?_, ?_⟩, .inr ⟨?_, ?_, ?_⟩⟩
  · simp [IdentityTables.withOwner, hnone]
  · simp [IdentityTables.withOwner, hdevices]
  · simp [IdentityTables.withOwner, hmembers]
  · simp [IdentityTables.withOwner, hdevice]
  · simp [IdentityTables.withOwner, hmembers, isMigratedOwner, isOwnerOf, currentVaultId]
  · simp [IdentityTables.withOwner, hdevices, hmembers, currentVaultId]

/-! ## Renaming a user -/

/-- The new user stands beside the old one. -/
def withUser (userId : String) (t : IdentityTables) : IdentityTables :=
  { t with userIds := t.userIds ++ [userId] }

theorem Settled.withUser {t : IdentityTables} (h : t.Settled) (hne : t.userIds ≠ [])
    {userId : String} (hfresh : userId ∉ t.userIds) : (t.withUser userId).Settled := by
  have hchain := h.2.resolve_left hne
  refine ⟨⟨?_, ?_, ?_⟩, .inr ⟨hchain.identity, hchain.owner, hchain.bound⟩⟩
  · exact List.nodup_append.mpr ⟨h.1.users, by simp, by
      intro a ha b hb
      obtain rfl := List.mem_singleton.mp hb
      exact fun heq => hfresh (heq ▸ ha)⟩
  · exact fun d hd => List.mem_append_left _ (h.1.devices d hd)
  · exact fun m hm => List.mem_append_left _ (h.1.members m hm)

/-- Every device and every member is under its new user. -/
def renamed (oldId newId : String) (t : IdentityTables) : IdentityTables :=
  { t with
    devices := t.devices.map fun d => (d.1, renameUserId oldId newId d.2)
    members := t.members.map fun m => { m with userId := renameUserId oldId newId m.userId } }

/-- Nothing refers to a user. -/
def Unused (userId : String) (t : IdentityTables) : Prop :=
  (∀ d ∈ t.devices, d.2 ≠ userId) ∧ ∀ m ∈ t.members, m.userId ≠ userId

theorem renameUserId_ne {oldId newId : String} (hne : newId ≠ oldId) (userId : String) :
    renameUserId oldId newId userId ≠ oldId := by
  unfold renameUserId
  split
  · exact hne
  · assumption

theorem Unused.renamed {oldId newId : String} (hne : newId ≠ oldId) (t : IdentityTables) :
    (t.renamed oldId newId).Unused oldId := by
  constructor
  · intro d hd
    obtain ⟨d', -, rfl⟩ := List.mem_map.mp hd
    exact renameUserId_ne hne d'.2
  · intro m hm
    obtain ⟨m', -, rfl⟩ := List.mem_map.mp hm
    exact renameUserId_ne hne m'.userId

theorem renameUserId_mem {userIds : List String} {oldId newId userId : String}
    (hnew : newId ∈ userIds) (huser : userId ∈ userIds) :
    renameUserId oldId newId userId ∈ userIds := by
  unfold renameUserId
  split
  · exact hnew
  · exact huser

/-- Devices and members that are renamed together keep the chain. -/
theorem Settled.renamed {t : IdentityTables} (h : t.Settled) (hne : t.userIds ≠ [])
    {oldId newId : String} (hnew : newId ∈ t.userIds) : (t.renamed oldId newId).Settled := by
  have hchain := h.2.resolve_left hne
  refine ⟨⟨h.1.users, ?_, ?_⟩, .inr ⟨hchain.identity, ?_, ?_⟩⟩
  · intro d hd
    obtain ⟨d', hd', rfl⟩ := List.mem_map.mp hd
    exact renameUserId_mem hnew (h.1.devices d' hd')
  · intro m hm
    obtain ⟨m', hm', rfl⟩ := List.mem_map.mp hm
    exact renameUserId_mem hnew (h.1.members m' hm')
  · rw [← hchain.owner]
    exact List.countP_map
  · intro d hd hid
    obtain ⟨d', hd', rfl⟩ := List.mem_map.mp hd
    obtain ⟨m, hm, huser, hvault⟩ := hchain.bound d' hd' hid
    exact ⟨_, List.mem_map_of_mem hm, congrArg (renameUserId oldId newId) huser, hvault⟩

/-- Between the two updates, the devices are under the new user. -/
def withDevicesRenamed (oldId newId : String) (t : IdentityTables) : IdentityTables :=
  { t with devices := t.devices.map fun d => (d.1, renameUserId oldId newId d.2) }

/-- Devices that are renamed first keep the chain where the device of this machine is another's. -/
theorem Settled.withDevicesRenamed {t : IdentityTables} (h : t.Settled) (hne : t.userIds ≠ [])
    {oldId newId : String} (hnew : newId ∈ t.userIds)
    (hother : ∀ d ∈ t.devices, t.deviceId = some d.1 → d.2 ≠ oldId) :
    (t.withDevicesRenamed oldId newId).Settled := by
  have hchain := h.2.resolve_left hne
  refine ⟨⟨h.1.users, ?_, h.1.members⟩, .inr ⟨hchain.identity, hchain.owner, ?_⟩⟩
  · intro d hd
    obtain ⟨d', hd', rfl⟩ := List.mem_map.mp hd
    exact renameUserId_mem hnew (h.1.devices d' hd')
  · intro d hd hid
    obtain ⟨d', hd', rfl⟩ := List.mem_map.mp hd
    obtain ⟨m, hm, huser, hvault⟩ := hchain.bound d' hd' hid
    have hsame : renameUserId oldId newId d'.2 = d'.2 := if_neg (hother d' hd' hid)
    exact ⟨m, hm, huser.trans hsame.symm, hvault⟩

/-- The rows of who invited whom. -/
def withInvitedBy (f : String → String) (t : IdentityTables) : IdentityTables :=
  { t with members := t.members.map fun m => { m with invitedBy := m.invitedBy.map f } }

theorem Settled.withInvitedBy {t : IdentityTables} (h : t.Settled) (f : String → String) :
    (t.withInvitedBy f).Settled := by
  refine ⟨⟨h.1.users, h.1.devices, ?_⟩, h.2.imp_right fun hchain =>
    ⟨hchain.identity, ?_, ?_⟩⟩
  · intro m hm
    obtain ⟨m', hm', rfl⟩ := List.mem_map.mp hm
    exact h.1.members m' hm'
  · rw [← hchain.owner]
    unfold IdentityTables.withInvitedBy
    rw [List.countP_map]
    congr 1
    funext m
    exact congrArg (isOwnerOf t.currentVaultId m && ·) Option.isNone_map
  · intro d hd hid
    obtain ⟨m, hm, huser, hvault⟩ := hchain.bound d hd hid
    exact ⟨_, List.mem_map_of_mem hm, huser, hvault⟩

theorem Unused.withInvitedBy {t : IdentityTables} {userId : String} (h : t.Unused userId)
    (f : String → String) : (t.withInvitedBy f).Unused userId := by
  refine ⟨h.1, ?_⟩
  intro m hm
  obtain ⟨m', hm', rfl⟩ := List.mem_map.mp hm
  exact h.2 m' hm'

/-- A user goes. -/
def withoutUser (userId : String) (t : IdentityTables) : IdentityTables :=
  { t with userIds := t.userIds.filter (· ≠ userId) }

theorem Settled.withoutUser {t : IdentityTables} (h : t.Settled) (hne : t.userIds ≠ [])
    {userId : String} (hunused : t.Unused userId) : (t.withoutUser userId).Settled := by
  have hchain := h.2.resolve_left hne
  refine ⟨⟨h.1.users.filter _, ?_, ?_⟩, .inr ⟨hchain.identity, hchain.owner, hchain.bound⟩⟩
  · intro d hd
    exact List.mem_filter.mpr ⟨h.1.devices d hd, by simpa using hunused.1 d hd⟩
  · intro m hm
    exact List.mem_filter.mpr ⟨h.1.members m hm, by simpa using hunused.2 m hm⟩

/-- The device is registered under a member of the vault. -/
def withDevice (deviceId userId : String) (t : IdentityTables) : IdentityTables :=
  { t with devices := t.devices ++ [(deviceId, userId)] }

theorem Settled.withDevice {t : IdentityTables} (h : t.Settled) (hne : t.userIds ≠ [])
    {deviceId : String} {m : VaultMemberRecord} (hm : m ∈ t.members)
    (hvault : m.vaultId = t.currentVaultId) : (t.withDevice deviceId m.userId).Settled := by
  have hchain := h.2.resolve_left hne
  refine ⟨⟨h.1.users, ?_, h.1.members⟩, .inr ⟨hchain.identity, hchain.owner, ?_⟩⟩
  · intro d hd
    rcases List.mem_append.mp hd with hold | hnew
    · exact h.1.devices d hold
    · obtain rfl := List.mem_singleton.mp hnew
      exact h.1.members m hm
  · intro d hd hid
    rcases List.mem_append.mp hd with hold | hnew
    · exact hchain.bound d hold hid
    · obtain rfl := List.mem_singleton.mp hnew
      exact ⟨m, hm, rfl, hvault⟩

end IdentityTables

/-- The tables of the identity in a database. -/
def identityOf (db : VaultDb P) : IdentityTables where
  vaultId := db.vaultState.map (·.vaultId)
  deviceId := db.localDeviceIdentity.map (·.deviceId)
  userIds := db.users.map (·.userId)
  devices := db.devices.map fun d => (d.deviceId, d.userId)
  members := db.vaultMembers

/-- The chain can be completed in a database. -/
def ChainSettled (w : StartupWorld P) : Prop := (identityOf w.db).Settled

/-! ## Single statements -/

theorem run_onStartupAccess {α : Type} (p : AccessProg P α) (w : StartupWorld P) :
    (onStartupAccess p).run w =
      ((p.run w.access).1.mapError .db, { w with access := (p.run w.access).2 }) := by
  rw [onStartupAccess, Prog.run_mapError, Prog.run_zoom (fun t : StartupWorld P => t.access)
    (fun access t => { t with access }) (fun _ _ => rfl) (fun _ _ _ => rfl) fun _ => rfl]

/-- An insert is one statement, of which the database refuses all or nothing. -/
theorem run_insert {refused : AccessWorld P → Option DbError}
    {upd : AccessWorld P → AccessWorld P} {w : StartupWorld P} (h : refused w.access = none) :
    (onStartupAccess (insertRow refused upd)).run w = (.ok (), { w with access := upd w.access }) ∧
      (onStartupAccess (insertRow refused upd)).count w = 1 := by
  rw [insertRow_eq]
  constructor
  · rw [run_onStartupAccess, Prog.run_execReturning_bind, h, if_pos rfl]
    rfl
  · change (((refused w.access).elim (pure ()) .fail : AccessProg P Unit).zoom _ _
      |>.mapError _).count _ + 1 = 1
    rw [h]
    rfl

theorem run_insert_refused {refused : AccessWorld P → Option DbError}
    {upd : AccessWorld P → AccessWorld P} {w : StartupWorld P} {e : DbError}
    (h : refused w.access = some e) :
    (onStartupAccess (insertRow refused upd)).run w = (.error (.db e), w) ∧
      (onStartupAccess (insertRow refused upd)).count w = 1 := by
  rw [insertRow_eq]
  constructor
  · rw [run_onStartupAccess, Prog.run_execReturning_bind, h, if_neg (by simp)]
    rfl
  · change (((refused w.access).elim (pure ()) .fail : AccessProg P Unit).zoom _ _
      |>.mapError _).count _ + 1 = 1
    rw [h]
    rfl

/-! ## The owner -/

section Owner

variable {env : StartupEnv}

/-- The world behind the three inserts of the owner. -/
def withOwnerRows (env : StartupEnv) (device : LocalDeviceIdentityRecord P) (vaultId : String)
    (w : StartupWorld P) : StartupWorld P :=
  w.withDb { w.db with
    users := w.db.users ++
      [{ userId := env.newUserId 0, displayName := device.deviceName, createdAt := w.access.now }]
    devices := w.db.devices ++
      [{ deviceId := device.deviceId
         userId := env.newUserId 0
         deviceName := device.deviceName
         publicKey := .exact P.zeroKey
         createdAt := w.access.now }]
    vaultMembers := w.db.vaultMembers ++
      [{ userId := env.newUserId 0
         vaultId
         role := "owner"
         invitedBy := none
         joinedAt := w.access.now }] }

theorem identityOf_withOwnerRows (device : LocalDeviceIdentityRecord P) (vaultId : String)
    (w : StartupWorld P) :
    identityOf (withOwnerRows env device vaultId w).db =
      (identityOf w.db).withOwner (env.newUserId 0) device.deviceId vaultId w.access.now := by
  simp [identityOf, withOwnerRows, StartupWorld.db, StartupWorld.withDb, AccessWorld.withDb,
    IdentityTables.withOwner]

/-- A database with users is left alone. -/
theorem migrate_of_users (env : StartupEnv) {w : StartupWorld P} (h : w.db.users ≠ []) (vaultId : String) :
    (migrateSingleToMultiUser env vaultId).run w = (.ok false, w) ∧
      (migrateSingleToMultiUser env vaultId).count w = 1 := by
  have hpos : 0 < w.db.users.length := List.length_pos_iff.mpr h
  constructor
  · rw [migrateSingleToMultiUser, Prog.run_query_bind, if_pos hpos]
    rfl
  · change (if 0 < w.db.users.length then (pure false : StartupProg P Bool) else _).count w + 1 = 1
    rw [if_pos hpos]
    rfl

/-- The audit log does not belong to the identity. -/
def audited (env : StartupEnv) (device : LocalDeviceIdentityRecord P) (vaultId : String)
    (w : StartupWorld P) : StartupWorld P :=
  { w with
    auditLogs := w.auditLogs ++
      [{ timestamp := w.access.now
         actorUserId := some (env.newUserId 0)
         actorDeviceId := some device.deviceId
         action := "migrate_single_to_multi"
         targetUserId := some (env.newUserId 0)
         targetDeviceId := some device.deviceId
         details := some "auto-migration from single-user vault"
         vaultId }] }

/-- The inserts of the owner succeed on a database without users, and only the states between
them are without the chain. -/
theorem migrate_of_no_users (env : StartupEnv) {w : StartupWorld P} (hconsistent : (identityOf w.db).Consistent)
    (hnone : w.db.users = []) {device : LocalDeviceIdentityRecord P}
    (hdevice : w.db.localDeviceIdentity = some device) (vaultId : String) :
    (migrateSingleToMultiUser env vaultId).run w =
        (.ok true, audited env device vaultId (withOwnerRows env device vaultId w)) ∧
      (∀ n < 3, (migrateSingleToMultiUser env vaultId).cut n w = w) ∧
      ∀ n, (migrateSingleToMultiUser env vaultId).cut (n + 5) w =
          withOwnerRows env device vaultId w ∨
        (migrateSingleToMultiUser env vaultId).cut (n + 5) w =
          audited env device vaultId (withOwnerRows env device vaultId w) := by
  obtain ⟨hdevices, hmembers⟩ := hconsistent.empty (by simp [identityOf, hnone])
  have hdevices : w.access.vault.db.devices = [] := List.map_eq_nil_iff.mp hdevices
  have hmembers : w.access.vault.db.vaultMembers = [] := hmembers
  have hnone : w.access.vault.db.users = [] := hnone
  let w₁ : StartupWorld P := w.withDb { w.db with
    users := w.db.users ++
      [{ userId := env.newUserId 0, displayName := device.deviceName, createdAt := w.access.now }] }
  let w₂ : StartupWorld P := w₁.withDb { w₁.db with
    devices := w₁.db.devices ++
      [{ deviceId := device.deviceId
         userId := env.newUserId 0
         deviceName := device.deviceName
         publicKey := .exact P.zeroKey
         createdAt := w₁.access.now }] }
  have huser : Db.userRefused (env.newUserId 0) w.access = none := by
    simp [Db.userRefused, AccessWorld.hasUser, hnone]
  have hregister : Db.deviceRefused device.deviceId (env.newUserId 0) w₁.access = none := by
    simp [Db.deviceRefused, AccessWorld.hasUser, AccessWorld.device?, w₁, StartupWorld.withDb,
      StartupWorld.db, AccessWorld.withDb, hdevices]
  have hjoin : Db.memberRefused (env.newUserId 0) vaultId none w₂.access = none := by
    simp [Db.memberRefused, AccessWorld.hasUser, AccessWorld.member?, w₂, w₁,
      StartupWorld.withDb, StartupWorld.db, AccessWorld.withDb, hmembers]
  have hfirst : (onStartupAccess (Db.createUser (env.newUserId 0) device.deviceName)).run w =
      (.ok (), w₁) ∧ (onStartupAccess (Db.createUser (env.newUserId 0) device.deviceName)).count w
        = 1 := run_insert huser
  have hsecond : (onStartupAccess (Db.createDevice device.deviceId (env.newUserId 0)
      device.deviceName P.zeroKey)).run w₁ = (.ok (), w₂) ∧
      (onStartupAccess (Db.createDevice device.deviceId (env.newUserId 0) device.deviceName
        P.zeroKey)).count w₁ = 1 := run_insert hregister
  have hthird : (onStartupAccess (Db.addVaultMember (env.newUserId 0) vaultId "owner" none)).run
      w₂ = (.ok (), withOwnerRows env device vaultId w) ∧
      (onStartupAccess (Db.addVaultMember (env.newUserId 0) vaultId "owner" none)).count w₂ = 1 :=
    run_insert hjoin
  have hzero : ¬ 0 < w.db.users.length := by
    simp [StartupWorld.db, hnone]
  have hcut : ∀ n, (migrateSingleToMultiUser env vaultId).cut (n + 2) w = (do
      onStartupAccess (Db.createUser (env.newUserId 0) device.deviceName)
      onStartupAccess (Db.createDevice device.deviceId (env.newUserId 0) device.deviceName
        P.zeroKey)
      onStartupAccess (Db.addVaultMember (env.newUserId 0) vaultId "owner" none)
      insertAuditLog fun now =>
        { timestamp := now
          actorUserId := some (env.newUserId 0)
          actorDeviceId := some device.deviceId
          action := "migrate_single_to_multi"
          targetUserId := some (env.newUserId 0)
          targetDeviceId := some device.deviceId
          details := some "auto-migration from single-user vault"
          vaultId }
      pure true : StartupProg P Bool).cut n w := by
    intro n
    rw [migrateSingleToMultiUser, Prog.cut_query_bind, if_neg hzero, readLocalDeviceIdentity,
      Prog.cut_query_bind, hdevice]
  refine ⟨?_, ?_, ?_⟩
  · rw [migrateSingleToMultiUser, Prog.run_query_bind, if_neg hzero, readLocalDeviceIdentity,
      Prog.run_query_bind, hdevice]
    dsimp only
    rw [Prog.run_bind_of_ok hfirst.1, Prog.run_bind_of_ok hsecond.1, Prog.run_bind_of_ok hthird.1]
    rfl
  · intro n hn
    rcases n with _ | _ | _ | n
    · rfl
    · change (if 0 < w.db.users.length then (pure false : StartupProg P Bool) else _).cut 0 w = w
      rw [if_neg hzero]
      rfl
    · rw [hcut]
      exact Prog.cut_zero _ w
    · omega
  · intro n
    rw [hcut, Prog.cut_bind_of_single hfirst.1 hfirst.2,
      Prog.cut_bind_of_single hsecond.1 hsecond.2, Prog.cut_bind_of_single hthird.1 hthird.2]
    rcases n with _ | n
    · left
      rfl
    · right
      cases n <;> rfl

end Owner

/-! ## Legacy users -/

section Legacy

variable {env : StartupEnv} {w : StartupWorld P} {oldId newId : String} {u : UserRecord P}

/-- The copy of a user under a new identifier. -/
def copyOf (newId : String) (u : UserRecord P) : UserRecord P where
  userId := newId
  displayName := u.displayName
  email := u.email
  authProvider := u.authProvider
  authSubject := u.authSubject
  createdAt := u.createdAt

@[simp] theorem userId_copyOf (newId : String) (u : UserRecord P) :
    (copyOf newId u).userId = newId := rfl

/-- The world with the copy. -/
def copied (newId : String) (u : UserRecord P) (w : StartupWorld P) : StartupWorld P :=
  w.withDb { w.db with users := w.db.users ++ [copyOf newId u] }

/-- A user without an account elsewhere is copied. -/
theorem run_copyUser (hu : w.db.users.find? (·.userId = oldId) = some u)
    (hfresh : newId ∉ (identityOf w.db).userIds) (hsubject : u.authSubject = none) :
    (copyUser newId oldId).run w = (.ok (), copied newId u w) ∧
      (copyUser newId oldId).count w = 1 := by
  have hu : w.access.vault.db.users.find? (·.userId = oldId) = some u := hu
  have huser : w.access.hasUser newId = false := by
    rw [AccessWorld.hasUser, List.any_eq_false]
    intro v hv hid
    exact hfresh (List.mem_map.mpr ⟨v, hv, of_decide_eq_true hid⟩)
  have hany : w.access.vault.db.users.any (sameAuthSubject u) = false := by
    rw [List.any_eq_false]
    intro v _
    simp [sameAuthSubject, hsubject]
  have hrefused : copyRefused newId oldId w.access = none := by
    simp [copyRefused, hu, huser, hany]
  have hrow : ({ w with access := copyUserRow newId oldId w.access } : StartupWorld P) =
      copied newId u w := by
    rw [copyUserRow, hu]
    rfl
  rw [copyUser, (run_insert hrefused).1, hrow]
  exact ⟨rfl, (run_insert hrefused).2⟩

/-- An account elsewhere is a key, which the row of the user itself has already. -/
theorem run_copyUser_refused (hu : w.db.users.find? (·.userId = oldId) = some u)
    (hsubject : u.authSubject.isSome) (newId : String) :
    (copyUser newId oldId).run w = (.error (.db .uniqueViolation), w) ∧
      (copyUser newId oldId).count w = 1 := by
  have hu : w.access.vault.db.users.find? (·.userId = oldId) = some u := hu
  have hany : w.access.vault.db.users.any (sameAuthSubject u) = true := by
    refine List.any_eq_true.mpr ⟨u, List.mem_of_find?_eq_some hu, ?_⟩
    simp [sameAuthSubject, hsubject]
  have hrefused : copyRefused newId oldId w.access = some .uniqueViolation := by
    simp [copyRefused, hu, hany]
  exact run_insert_refused hrefused

/-- The tables after one legacy user. -/
theorem identityOf_copied (w : StartupWorld P) :
    identityOf (copied newId u w).db = (identityOf w.db).withUser newId := by
  simp [identityOf, copied, StartupWorld.db, StartupWorld.withDb, AccessWorld.withDb,
    IdentityTables.withUser]

/-- The world behind the two updates that rename a user. -/
def renamedRows (oldId newId : String) (w : StartupWorld P) : StartupWorld P :=
  w.withDb { w.db with
    devices := w.db.devices.map fun d => { d with userId := renameUserId oldId newId d.userId }
    vaultMembers := w.db.vaultMembers.map fun m =>
      { m with userId := renameUserId oldId newId m.userId } }

theorem identityOf_renamedRows (w : StartupWorld P) :
    identityOf (renamedRows oldId newId w).db = (identityOf w.db).renamed oldId newId := by
  simp [identityOf, renamedRows, StartupWorld.db, StartupWorld.withDb, AccessWorld.withDb,
    IdentityTables.renamed, Function.comp_def]

/-- A user is renamed wherever it stands beside a membership, and nothing but its own row is left
of it. -/
structure Renamed (oldId newId : String) (w : StartupWorld P) : Prop where
  settled : ChainSettled w
  newUser : newId ∈ (identityOf w.db).userIds
  unused : (identityOf w.db).Unused oldId

theorem keeps_backfillOthers (hne : newId ≠ oldId) :
    (backfillOthers newId oldId : StartupProg P Unit).Keeps (Renamed oldId newId) := by
  rw [backfillOthers]
  apply Prog.Keeps.bind
  · apply Prog.Keeps.exec
    intro w hw
    have htables : identityOf (w.withDb { w.db with
        vaultMembers := w.db.vaultMembers.map fun m =>
          { m with invitedBy := m.invitedBy.map (renameUserId oldId newId) } }).db =
        (identityOf w.db).withInvitedBy (renameUserId oldId newId) := rfl
    refine ⟨?_, ?_, ?_⟩
    · rw [ChainSettled, htables]
      exact hw.settled.withInvitedBy _
    · rw [htables]
      exact hw.newUser
    · rw [htables]
      exact hw.unused.withInvitedBy _
  · intro _
    apply Prog.Keeps.bind (Prog.Keeps.exec fun _ hw => ⟨hw.1, hw.2, hw.3⟩)
    intro _
    apply Prog.Keeps.bind (Prog.Keeps.exec fun _ hw => ⟨hw.1, hw.2, hw.3⟩)
    intro _
    apply Prog.Keeps.bind (Prog.Keeps.exec fun _ hw => ⟨hw.1, hw.2, hw.3⟩)
    intro _
    apply Prog.Keeps.bind (Prog.Keeps.exec fun _ hw => ⟨hw.1, hw.2, hw.3⟩)
    intro _
    apply Prog.Keeps.exec
    intro w hw
    have htables : identityOf (w.withDb { w.db with
        users := w.db.users.filter (·.userId ≠ oldId) }).db =
        (identityOf w.db).withoutUser oldId := by
      simp [identityOf, StartupWorld.db, StartupWorld.withDb, AccessWorld.withDb,
        IdentityTables.withoutUser, List.filter_map, Function.comp_def]
    refine ⟨?_, ?_, ?_⟩
    · rw [ChainSettled, htables]
      exact hw.settled.withoutUser (List.ne_nil_of_mem hw.newUser) hw.unused
    · rw [htables]
      exact List.mem_filter.mpr ⟨hw.newUser, by simpa using hne⟩
    · rw [htables]
      exact hw.unused

/-- Between the two updates, a user that has not the device of this machine. -/
def devicesRenamed (oldId newId : String) (w : StartupWorld P) : StartupWorld P :=
  w.withDb { w.db with
    devices := w.db.devices.map fun d => { d with userId := renameUserId oldId newId d.userId } }

theorem identityOf_devicesRenamed (w : StartupWorld P) :
    identityOf (devicesRenamed oldId newId w).db =
      (identityOf w.db).withDevicesRenamed oldId newId := by
  simp [identityOf, devicesRenamed, StartupWorld.db, StartupWorld.withDb, AccessWorld.withDb,
    IdentityTables.withDevicesRenamed, Function.comp_def]

/-- The world behind one legacy user. -/
def afterUser (oldId newId : String) (u : UserRecord P) (w : StartupWorld P) : StartupWorld P :=
  ((backfillOthers newId oldId : StartupProg P Unit).run
    (renamedRows oldId newId (copied newId u w))).2

theorem users_afterUser (w : StartupWorld P) :
    (afterUser oldId newId u w).db.users =
      (copied newId u w).db.users.filter (·.userId ≠ oldId) := rfl

theorem deviceIdentity_afterUser (w : StartupWorld P) :
    (afterUser oldId newId u w).db.localDeviceIdentity = w.db.localDeviceIdentity := rfl

theorem devices_afterUser (w : StartupWorld P) :
    (afterUser oldId newId u w).db.devices = w.db.devices.map fun d =>
      { d with userId := renameUserId oldId newId d.userId } := rfl

/-- A legacy user is renamed in nine statements. -/
theorem run_backfillUser (hu : w.db.users.find? (·.userId = oldId) = some u)
    (hfresh : newId ∉ (identityOf w.db).userIds) (hsubject : u.authSubject = none) :
    (backfillUser newId oldId).run w = (.ok (), afterUser oldId newId u w) ∧
      (backfillUser newId oldId).count w = 9 := by
  obtain ⟨hrun, hcount⟩ := run_copyUser hu hfresh hsubject
  constructor
  · rw [backfillUser, Prog.run_bind_of_ok hrun]
    rfl
  · rw [backfillUser, Prog.count_bind_of_ok hrun, hcount]
    rfl

/-- The device of this machine belongs to a user. -/
def OwnsLocalDevice (userId : String) (db : VaultDb P) : Prop :=
  ∃ d ∈ db.devices, db.localDeviceIdentity.map (·.deviceId) = some d.deviceId ∧ d.userId = userId

/-- One legacy user costs the chain nothing, unless a stop comes between the two updates that
rename the owner of the device. -/
theorem settled_cut_backfillUser (hs : ChainSettled w)
    (hu : w.db.users.find? (·.userId = oldId) = some u)
    (hfresh : newId ∉ (identityOf w.db).userIds) (hsubject : u.authSubject = none) (n : ℕ)
    (hn : OwnsLocalDevice oldId w.db → n ≠ 2) :
    ChainSettled ((backfillUser newId oldId).cut n w) := by
  obtain ⟨hrun, hcount⟩ := run_copyUser hu hfresh hsubject
  have hold : oldId ∈ (identityOf w.db).userIds :=
    List.mem_map.mpr ⟨u, List.mem_of_find?_eq_some hu, by
      simpa using List.find?_some hu⟩
  have hne : newId ≠ oldId := fun heq => hfresh (heq ▸ hold)
  have hcopied : ChainSettled (copied newId u w) := by
    rw [ChainSettled, identityOf_copied]
    exact IdentityTables.Settled.withUser hs (List.ne_nil_of_mem hold) hfresh
  have hnew : newId ∈ (identityOf (copied newId u w).db).userIds := by
    rw [identityOf_copied]
    exact List.mem_append_right _ (List.mem_singleton_self newId)
  match n, hn with
  | 0, _ => exact hs
  | 1, _ =>
    rw [backfillUser, Prog.cut_bind_of_single hrun hcount]
    exact hcopied
  | 2, hn =>
    have hother : ¬ OwnsLocalDevice oldId w.db := fun howns => hn howns rfl
    have hcut : (backfillUser newId oldId).cut 2 w =
        devicesRenamed oldId newId (copied newId u w) := by
      rw [backfillUser, Prog.cut_bind_of_single hrun hcount]
      rfl
    rw [hcut, ChainSettled, identityOf_devicesRenamed]
    apply IdentityTables.Settled.withDevicesRenamed hcopied (List.ne_nil_of_mem hnew) hnew
    intro d hd hid howner
    obtain ⟨row, hrow, rfl⟩ := List.mem_map.mp hd
    exact hother ⟨row, hrow, hid, howner⟩
  | n + 3, _ =>
    have hcut : (backfillUser newId oldId).cut (n + 3) w =
        (backfillOthers newId oldId : StartupProg P Unit).cut n
          (renamedRows oldId newId (copied newId u w)) := by
      rw [backfillUser, Prog.cut_bind_of_single hrun hcount]
      rfl
    rw [hcut]
    have hrenamed : Renamed oldId newId (renamedRows oldId newId (copied newId u w)) := by
      refine ⟨?_, ?_, ?_⟩
      · rw [ChainSettled, identityOf_renamedRows]
        exact IdentityTables.Settled.renamed hcopied (List.ne_nil_of_mem hnew) hnew
      · rw [identityOf_renamedRows]
        exact hnew
      · rw [identityOf_renamedRows]
        exact IdentityTables.Unused.renamed hne _
    exact ((keeps_backfillOthers hne).cut n hrenamed).settled

/-! ## Every legacy user -/

/-- Nothing stands in the way of a copy of the user. -/
def isCopyable (db : VaultDb P) (userId : String) : Bool :=
  (db.users.find? (·.userId = userId)).all (·.authSubject.isNone)

/-- The identifiers to be drawn from a position on are new, and none of them is a legacy one. -/
structure FreshIds (env : StartupEnv) (k : ℕ) (w : StartupWorld P) : Prop where
  injective : env.newUserId.Injective
  notLegacy : ∀ i, isLegacyUserId (env.newUserId i) = false
  unused : ∀ i, k ≤ i → env.newUserId i ∉ (identityOf w.db).userIds

theorem mem_userIds {userId : String} :
    userId ∈ (identityOf w.db).userIds ↔ ∃ v ∈ w.db.users, v.userId = userId := List.mem_map

/-- The users after one legacy user: the others, and the copy at the end. -/
theorem users_afterUser_eq (hne : newId ≠ oldId) :
    (afterUser oldId newId u w).db.users =
      w.db.users.filter (·.userId ≠ oldId) ++ [copyOf newId u] := by
  rw [users_afterUser, copied]
  change (w.db.users ++ [copyOf newId u]).filter _ = _
  rw [List.filter_append, List.filter_cons_of_pos (by simp [hne]), List.filter_nil]

/-- What is left to rename. -/
theorem legacyUserIds_afterUser {rest : List String} (hnodup : (identityOf w.db).userIds.Nodup)
    (hlegacy : legacyUserIds w.db = oldId :: rest) (hnew : isLegacyUserId newId = false)
    (hne : newId ≠ oldId) : legacyUserIds (afterUser oldId newId u w).db = rest := by
  have hids : (identityOf w.db).userIds.filter isLegacyUserId = oldId :: rest := hlegacy
  have hrest : oldId ∉ rest := by
    have hnodup' := hnodup.filter isLegacyUserId
    rw [hids] at hnodup'
    exact (List.nodup_cons.mp hnodup').1
  rw [legacyUserIds, users_afterUser_eq hne, List.map_append, List.filter_append]
  have hcopy : ([newId] : List String).filter isLegacyUserId = [] := by simp [hnew]
  have hold : ((w.db.users.filter (·.userId ≠ oldId)).map (·.userId)).filter isLegacyUserId =
      ((identityOf w.db).userIds.filter isLegacyUserId).filter (· ≠ oldId) := by
    rw [List.filter_filter]
    simp only [identityOf, List.filter_map, List.filter_filter, Function.comp_def]
    congr 1
    exact List.filter_congr fun v _ => Bool.and_comm _ _
  rw [hold, hids]
  change List.filter _ (oldId :: rest) ++ List.filter isLegacyUserId [newId] = rest
  rw [hcopy, List.append_nil, List.filter_cons_of_neg (by simp), List.filter_eq_self]
  intro userId huser
  simpa using fun heq : userId = oldId => hrest (heq ▸ huser)

/-- The rename of a user is of no account to the copies of the others. -/
theorem isCopyable_afterUser {userId : String} (hold : userId ≠ oldId) (hnew : userId ≠ newId)
    (hne : newId ≠ oldId) :
    isCopyable (afterUser oldId newId u w).db userId = isCopyable w.db userId := by
  have hfind : (afterUser oldId newId u w).db.users.find? (·.userId = userId) =
      w.db.users.find? (·.userId = userId) := by
    rw [users_afterUser_eq hne, List.find?_append, List.find?_filter]
    have hcopy : [copyOf newId u].find? (·.userId = userId) = none :=
      List.find?_cons_of_neg (by simp [hnew.symm])
    rw [hcopy, Option.or_none]
    congr 1
    funext v
    rcases eq_or_ne v.userId userId with heq | hneq
    · simp [heq, hold]
    · simp [hneq]
  rw [isCopyable, isCopyable, hfind]

theorem ownsLocalDevice_afterUser {userId : String} (hold : userId ≠ oldId)
    (hnew : userId ≠ newId) :
    OwnsLocalDevice userId (afterUser oldId newId u w).db ↔ OwnsLocalDevice userId w.db := by
  unfold OwnsLocalDevice
  rw [devices_afterUser, deviceIdentity_afterUser]
  constructor
  · rintro ⟨d, hd, hid, howner⟩
    obtain ⟨d', hd', rfl⟩ := List.mem_map.mp hd
    refine ⟨d', hd', hid, ?_⟩
    unfold renameUserId at howner
    split at howner
    · exact absurd howner.symm hnew
    · exact howner
  · rintro ⟨d, hd, hid, howner⟩
    exact ⟨_, List.mem_map_of_mem hd, hid, (if_neg (howner ▸ hold)).trans howner⟩

/-- A legacy user that is held up stays as it is. -/
theorem backfillUser_refused (hu : w.db.users.find? (·.userId = oldId) = some u)
    (hsubject : u.authSubject.isSome) (newId : String) :
    (backfillUser newId oldId).run w = (.error (.db .uniqueViolation), w) ∧
      ∀ n, (backfillUser newId oldId).cut n w = w := by
  obtain ⟨hrun, hcount⟩ := run_copyUser_refused hu hsubject newId
  constructor
  · rw [backfillUser, Prog.run_bind_of_error hrun]
  · intro n
    rw [backfillUser, Prog.cut_bind_of_error hrun]
    rcases n with _ | n
    · exact Prog.cut_zero _ w
    · rw [Prog.cut_of_count_le (by omega), hrun]

/-- A legacy user is a user. -/
theorem exists_of_mem_legacyUserIds {userId : String} (h : userId ∈ legacyUserIds w.db) :
    ∃ u, w.db.users.find? (·.userId = userId) = some u := by
  obtain ⟨v, hv, hid⟩ := List.mem_map.mp (List.mem_of_mem_filter h)
  refine Option.isSome_iff_exists.mp (List.find?_isSome.mpr ⟨v, hv, ?_⟩)
  simpa using hid

/-- The legacy users that a start renames, up to the first that is held up. -/
def renamable (db : VaultDb P) : List String :=
  (legacyUserIds db).takeWhile (isCopyable db)

/-- No stop comes between the two updates that rename the owner of the device; the updates of the
first legacy user come after so many statements. -/
def SparesOwner (n offset : ℕ) (db : VaultDb P) : Prop :=
  ∀ i userId, (renamable db)[i]? = some userId → OwnsLocalDevice userId db →
    n ≠ offset + 9 * i + 2

/-- A start finds nothing to rename. -/
def BackfillDone (db : VaultDb P) : Prop :=
  ∀ userId ∈ (legacyUserIds db).head?, isCopyable db userId = false

theorem renamable_afterUser {rest : List String} {k : ℕ} (hs : ChainSettled w)
    (hfresh : FreshIds env k w) (hlegacy : legacyUserIds w.db = oldId :: rest)
    (hcopyable : isCopyable w.db oldId = true) :
    renamable w.db = oldId :: renamable (afterUser oldId (env.newUserId k) u w).db ∧
      ∀ userId ∈ renamable (afterUser oldId (env.newUserId k) u w).db,
        OwnsLocalDevice userId (afterUser oldId (env.newUserId k) u w).db ↔
          OwnsLocalDevice userId w.db := by
  have hmem : ∀ userId ∈ legacyUserIds w.db, userId ∈ (identityOf w.db).userIds :=
    fun userId h => List.mem_of_mem_filter h
  have hne : env.newUserId k ≠ oldId := by
    intro heq
    exact hfresh.unused k (Nat.le_refl k) (heq ▸ hmem oldId (hlegacy ▸ List.mem_cons_self))
  have hnodup : (legacyUserIds w.db).Nodup := hs.1.users.filter _
  rw [hlegacy] at hnodup
  have hrest : ∀ userId ∈ rest, userId ≠ oldId ∧ userId ≠ env.newUserId k := by
    intro userId huser
    refine ⟨fun heq => (List.nodup_cons.mp hnodup).1 (heq ▸ huser), fun heq => ?_⟩
    exact hfresh.unused k (Nat.le_refl k)
      (heq ▸ hmem userId (hlegacy ▸ List.mem_cons_of_mem _ huser))
  have hlegacy' := legacyUserIds_afterUser (u := u) hs.1.users hlegacy (hfresh.notLegacy k) hne
  have hcongr : rest.takeWhile (isCopyable (afterUser oldId (env.newUserId k) u w).db) =
      rest.takeWhile (isCopyable w.db) := by
    clear hlegacy hlegacy' hnodup
    induction rest with
    | nil => rfl
    | cons userId rest ih =>
      have hhead := hrest userId List.mem_cons_self
      rw [List.takeWhile_cons, List.takeWhile_cons, isCopyable_afterUser hhead.1 hhead.2 hne,
        ih fun userId huser => hrest userId (List.mem_cons_of_mem _ huser)]
  constructor
  · rw [renamable, renamable, hlegacy, hlegacy', hcongr, List.takeWhile_cons_of_pos hcopyable]
  · intro userId huser
    rw [renamable, hlegacy'] at huser
    have hother := hrest userId (List.takeWhile_prefix _ |>.subset huser)
    exact ownsLocalDevice_afterUser hother.1 hother.2

theorem FreshIds.afterUser {k : ℕ} (h : FreshIds env k w)
    (hne : env.newUserId k ≠ oldId) :
    FreshIds env (k + 1) (afterUser oldId (env.newUserId k) u w) := by
  refine ⟨h.injective, h.notLegacy, ?_⟩
  intro i hi hmem
  obtain ⟨v, hv, hid⟩ := mem_userIds.mp hmem
  rw [users_afterUser_eq hne] at hv
  rcases List.mem_append.mp hv with hold | hcopy
  · exact h.unused i (by omega) (mem_userIds.mpr ⟨v, List.mem_of_mem_filter hold, hid⟩)
  · obtain rfl := List.mem_singleton.mp hcopy
    have heq : k = i := h.injective hid
    omega

/-- The legacy users are renamed up to the first that is held up. -/
theorem backfillUsers_settles (ids : List String) (k : ℕ) (w : StartupWorld P)
    (hs : ChainSettled w) (hlegacy : legacyUserIds w.db = ids) (hfresh : FreshIds env k w) :
    (∀ n, SparesOwner n 0 w.db → ChainSettled ((backfillUsers env k ids).cut n w)) ∧
      BackfillDone ((backfillUsers env k ids).run w).2.db ∧
      (w.db.users ≠ [] → ((backfillUsers env k ids).run w).2.db.users ≠ []) := by
  induction ids generalizing k w with
  | nil =>
    refine ⟨fun n _ => ?_, ?_, id⟩
    · rw [backfillUsers, Prog.pure_eq_ret, Prog.cut_ret]
      exact hs
    · intro userId huser
      rw [backfillUsers, Prog.pure_eq_ret, Prog.run_ret, hlegacy] at huser
      cases huser
  | cons oldId rest ih =>
    have hmem : oldId ∈ legacyUserIds w.db := hlegacy ▸ List.mem_cons_self
    obtain ⟨u, hu⟩ := exists_of_mem_legacyUserIds hmem
    have hcopyable : isCopyable w.db oldId = u.authSubject.isNone := by
      rw [isCopyable, hu]
      rfl
    rcases hsubject : u.authSubject with _ | subject
    · have hnew := hfresh.unused k (Nat.le_refl k)
      have hne : env.newUserId k ≠ oldId := fun heq =>
        hnew (heq ▸ List.mem_of_mem_filter hmem)
      obtain ⟨hrun, hcount⟩ := run_backfillUser hu hnew hsubject
      have hhead : isCopyable w.db oldId = true := by rw [hcopyable, hsubject]; rfl
      obtain ⟨hrenamable, howns⟩ := renamable_afterUser (u := u) hs hfresh hlegacy hhead
      have hs' : ChainSettled (afterUser oldId (env.newUserId k) u w) := by
        have hcut := settled_cut_backfillUser hs hu hnew hsubject 9 fun _ => by decide
        rwa [Prog.cut_of_count_le (by omega), hrun] at hcut
      obtain ⟨hcut, hdone, husers⟩ := ih (k + 1) _ hs'
        (legacyUserIds_afterUser hs.1.users hlegacy (hfresh.notLegacy k) hne)
        (hfresh.afterUser hne)
      rw [backfillUsers, Prog.run_bind_of_ok hrun]
      refine ⟨?_, hdone, fun _ => husers ?_⟩
      · intro n hn
        rcases Nat.lt_or_ge n 9 with hlt | hge
        · rw [Prog.cut_bind_of_le (by omega)]
          apply settled_cut_backfillUser hs hu hnew hsubject
          intro howner
          exact hn 0 oldId (by rw [hrenamable]; rfl) howner
        · obtain ⟨m, rfl⟩ := Nat.exists_eq_add_of_le hge
          rw [← hcount, Prog.cut_bind_of_ok hrun]
          apply hcut
          intro i userId hget howner hm
          refine hn (i + 1) userId (by rw [hrenamable]; exact hget) ?_ (by omega)
          exact (howns userId (List.mem_of_getElem? hget)).mp howner
      · rw [users_afterUser_eq hne]
        simp
    · have hsome : u.authSubject.isSome := by rw [hsubject]; rfl
      obtain ⟨hrun, hcut⟩ := backfillUser_refused hu hsome (env.newUserId k)
      rw [backfillUsers, Prog.run_bind_of_error hrun]
      refine ⟨?_, ?_, id⟩
      · intro n _
        rw [Prog.cut_bind_of_error hrun, hcut]
        exact hs
      · intro userId huser
        rw [hlegacy] at huser
        obtain rfl : oldId = userId := by simpa using huser
        rw [hcopyable, hsubject]
        rfl

theorem backfillUuidUserIds_of_none (env : StartupEnv) (hnone : legacyUserIds w.db = []) :
    (backfillUuidUserIds env).run w = (.ok 0, w) ∧
      ∀ n, (backfillUuidUserIds env).cut n w = w := by
  have hrun : (backfillUuidUserIds env).run w = (.ok 0, w) := by
    rw [backfillUuidUserIds, Prog.run_query_bind, if_pos hnone]
    rfl
  refine ⟨hrun, ?_⟩
  rintro (_ | n)
  · exact Prog.cut_zero _ w
  · have hcount : (backfillUuidUserIds env).count w = 1 := by
      rw [backfillUuidUserIds, Prog.count_query_bind, if_pos hnone]
      rfl
    rw [Prog.cut_of_count_le (by omega), hrun]

/-- Beside the loop there are only a query and pragmas. -/
theorem backfillUuidUserIds_of_some (env : StartupEnv) (hsome : legacyUserIds w.db ≠ []) :
    ((backfillUuidUserIds env).run w).2 =
        ((backfillUsers env 1 (legacyUserIds w.db)).run w).2 ∧
      (∀ n < 2, (backfillUuidUserIds env).cut n w = w) ∧
      ∀ n, (backfillUuidUserIds env).cut (n + 2) w =
        (backfillUsers env 1 (legacyUserIds w.db)).cut n w := by
  let after : Unit → StartupProg P ℕ := fun _ => do
    pragma
    pure (legacyUserIds w.db).length
  have hafter : ∀ a, (after a).Fixes id := fun a =>
    Prog.Fixes.bind (Prog.Fixes.exec fun _ => rfl) fun _ => trivial
  refine ⟨?_, ?_, ?_⟩
  · rw [backfillUuidUserIds, Prog.run_query_bind, if_neg hsome, pragma, Prog.run_exec_bind]
    exact Prog.Fixes.run_bind hafter _ w
  · intro n hn
    match n, hn with
    | 0, _ => exact Prog.cut_zero _ w
    | 1, _ =>
      change (if legacyUserIds w.db = [] then (pure 0 : StartupProg P ℕ) else _).cut 0 w = w
      exact Prog.cut_zero _ w
  · intro n
    change (if legacyUserIds w.db = [] then (pure 0 : StartupProg P ℕ) else _).cut (n + 1) w = _
    rw [if_neg hsome]
    exact Prog.Fixes.cut_bind hafter n _ w

theorem backfillUuidUserIds_settles (hs : ChainSettled w) (hfresh : FreshIds env 1 w) :
    (∀ n, SparesOwner n 2 w.db → ChainSettled ((backfillUuidUserIds env).cut n w)) ∧
      BackfillDone ((backfillUuidUserIds env).run w).2.db ∧
      (w.db.users ≠ [] → ((backfillUuidUserIds env).run w).2.db.users ≠ []) := by
  obtain ⟨hcut, hdone, husers⟩ := backfillUsers_settles _ 1 w hs rfl hfresh
  by_cases hnone : legacyUserIds w.db = []
  · obtain ⟨hrun, hsame⟩ := backfillUuidUserIds_of_none env hnone
    rw [hrun]
    refine ⟨?_, ?_, id⟩
    · intro n _
      rw [hsame]
      exact hs
    · intro userId huser
      rw [hnone] at huser
      cases huser
  · obtain ⟨hrun, hsame, hloop⟩ := backfillUuidUserIds_of_some env hnone
    rw [hrun]
    refine ⟨?_, hdone, husers⟩
    · intro n hn
      rcases Nat.lt_or_ge n 2 with hlt | hge
      · rw [hsame n hlt]
        exact hs
      · obtain ⟨m, rfl⟩ := Nat.exists_eq_add_of_le hge
        rw [Nat.add_comm, hloop]
        apply hcut
        intro i userId hget howner hm
        exact hn i userId hget howner (by omega)

/-- A start that finds nothing to rename leaves everything as it was. -/
theorem backfillUuidUserIds_of_done (hdone : BackfillDone w.db) :
    ((backfillUuidUserIds env).run w).2 = w := by
  rcases hlegacy : legacyUserIds w.db with _ | ⟨oldId, rest⟩
  · rw [(backfillUuidUserIds_of_none env hlegacy).1]
  · have hmem : oldId ∈ legacyUserIds w.db := hlegacy ▸ List.mem_cons_self
    obtain ⟨u, hu⟩ := exists_of_mem_legacyUserIds hmem
    have hheld : isCopyable w.db oldId = false := hdone oldId (by rw [hlegacy]; rfl)
    have hsome : u.authSubject.isSome := by
      rw [isCopyable, hu] at hheld
      cases hsubject : u.authSubject with
      | none =>
        rw [Option.all_some, hsubject] at hheld
        cases hheld
      | some _ => rfl
    rw [(backfillUuidUserIds_of_some env (by rw [hlegacy]; exact List.cons_ne_nil _ _)).1, hlegacy,
      backfillUsers, Prog.run_bind_of_error (backfillUser_refused hu hsome _).1]

end Legacy

end OmniDrive
