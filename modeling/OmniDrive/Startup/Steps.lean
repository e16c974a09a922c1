import OmniDrive.Startup.Chain

/-!
# The steps of a startup

What each step of a startup leaves alone, and what it leaves behind: the device and its settings,
its registration under the owner of the vault, and the owner.
-/

namespace OmniDrive

open StatementProgram GuardedRuns Tables

variable {P : Primitives} {w : StartupWorld P} {env : StartupEnv}

/-! ## Steps that are logged -/

theorem cut_nonFatal {α : Type} (p : StartupProg P α) (n : ℕ) (w : StartupWorld P) :
    (nonFatal p).cut n w = p.cut n w := by
  have hend : ∀ _ : Except StartupError α, (pure () : StartupProg P Unit).Fixes id :=
    fun _ => trivial
  rw [nonFatal, Prog.Fixes.cut_bind hend]
  exact Prog.cut_attempt n p w

theorem run_nonFatal {α : Type} (p : StartupProg P α) (w : StartupWorld P) :
    (nonFatal p).run w = (.ok (), (p.run w).2) := by
  rw [nonFatal, Prog.run_bind_of_ok (Prog.run_attempt p w)]
  rfl

theorem count_nonFatal {α : Type} (p : StartupProg P α) (w : StartupWorld P) :
    (nonFatal p).count w = p.count w := by
  rw [nonFatal, Prog.count_bind_of_ok (Prog.run_attempt p w), Prog.count_attempt]
  rfl

/-! ## The vault, the device and the policies stay -/

/-- What the steps behind the identity of the device leave alone. -/
def settingsOf (w : StartupWorld P) :
    Option (VaultRecord P) × Option (LocalDeviceIdentityRecord P) × List SyncPolicyRecord :=
  (w.db.vaultState, w.db.localDeviceIdentity, w.syncPolicies)

theorem fixes_insert {κ : Type} {f : StartupWorld P → κ} {refused : AccessWorld P → Option DbError}
    {upd : AccessWorld P → AccessWorld P} (hupd : ∀ w, f { w with access := upd w.access } = f w) :
    (onStartupAccess (insertRow refused upd)).Fixes f := by
  rw [insertRow_eq]
  intro w
  constructor
  · change f { w with access := if refused w.access = none then upd w.access else w.access } = _
    split
    · exact hupd w
    · rfl
  · change Prog.Fixes f (Prog.mapError _ (Prog.zoom _ _
      ((refused w.access).elim (pure ()) .fail : AccessProg P Unit)))
    cases refused w.access <;> trivial

theorem fixes_migrateSingleToMultiUser (env : StartupEnv) (vaultId : String) :
    (migrateSingleToMultiUser env vaultId : StartupProg P Bool).Fixes settingsOf := by
  apply Prog.Fixes.bind (Prog.Fixes.query _)
  intro count
  split
  · trivial
  · apply Prog.Fixes.bind (Prog.Fixes.query _)
    rintro (_ | device)
    · trivial
    · exact Prog.Fixes.bind (fixes_insert fun _ => rfl) fun _ =>
        Prog.Fixes.bind (fixes_insert fun _ => rfl) fun _ =>
          Prog.Fixes.bind (fixes_insert fun _ => rfl) fun _ =>
            Prog.Fixes.bind (Prog.Fixes.exec fun _ => rfl) fun _ => trivial

theorem fixes_copyUser (newId oldId : String) :
    (copyUser newId oldId : StartupProg P Unit).Fixes settingsOf := by
  apply fixes_insert
  intro w
  unfold copyUserRow
  split <;> rfl

theorem fixes_backfillUser (newId oldId : String) :
    (backfillUser newId oldId : StartupProg P Unit).Fixes settingsOf := by
  apply Prog.Fixes.bind (fixes_copyUser newId oldId)
  intro _
  exact Prog.Fixes.bind (Prog.Fixes.exec fun _ => rfl) fun _ =>
    Prog.Fixes.bind (Prog.Fixes.exec fun _ => rfl) fun _ =>
      Prog.Fixes.bind (Prog.Fixes.exec fun _ => rfl) fun _ =>
        Prog.Fixes.bind (Prog.Fixes.exec fun _ => rfl) fun _ =>
          Prog.Fixes.bind (Prog.Fixes.exec fun _ => rfl) fun _ =>
            Prog.Fixes.bind (Prog.Fixes.exec fun _ => rfl) fun _ =>
              Prog.Fixes.bind (Prog.Fixes.exec fun _ => rfl) fun _ =>
                Prog.Fixes.exec fun _ => rfl

theorem fixes_backfillUuidUserIds (env : StartupEnv) :
    (backfillUuidUserIds env : StartupProg P ℕ).Fixes settingsOf := by
  have hloop : ∀ (ids : List String) k,
      (backfillUsers env k ids : StartupProg P Unit).Fixes settingsOf := by
    intro ids
    induction ids with
    | nil => exact fun _ => trivial
    | cons oldId rest ih => exact fun k => Prog.Fixes.bind (fixes_backfillUser _ _) fun _ => ih _
  apply Prog.Fixes.bind (Prog.Fixes.query _)
  intro ids
  split
  · trivial
  · exact Prog.Fixes.bind (Prog.Fixes.exec fun _ => rfl) fun _ =>
      Prog.Fixes.bind (hloop ids 1) fun _ =>
        Prog.Fixes.bind (Prog.Fixes.exec fun _ => rfl) fun _ => trivial

/-- The registration of the device writes nothing but a device. -/
theorem fixes_ensureLocalDeviceInVault {κ : Type} {f : StartupWorld P → κ}
    (hdevices : ∀ w devices, f (w.withDb { w.db with devices }) = f w) (vaultId : String) :
    (ensureLocalDeviceInVault vaultId).Fixes f := by
  apply Prog.Fixes.bind (Prog.Fixes.query _)
  rintro (_ | device)
  · trivial
  · apply Prog.Fixes.bind (Prog.Fixes.query _)
    intro registered
    split
    · trivial
    · apply Prog.Fixes.bind (Prog.Fixes.query _)
      rintro (_ | owner)
      · trivial
      · refine Prog.Fixes.bind (fixes_insert fun w => ?_) fun _ => trivial
        dsimp only
        split
        · rfl
        · exact hdevices w _

/-! ## The device in the vault -/

/-- The world with the device of this machine under an owner. -/
def withLocalDevice (device : LocalDeviceIdentityRecord P) (owner : VaultMemberRecord)
    (w : StartupWorld P) : StartupWorld P :=
  w.withDb { w.db with
    devices := w.db.devices ++
      [{ deviceId := device.deviceId
         userId := owner.userId
         deviceName := device.deviceName
         publicKey := .exact P.zeroKey
         createdAt := w.access.now }] }

theorem identityOf_withLocalDevice (device : LocalDeviceIdentityRecord P)
    (owner : VaultMemberRecord) (w : StartupWorld P) :
    identityOf (withLocalDevice device owner w).db =
      (identityOf w.db).withDevice device.deviceId owner.userId := by
  simp [identityOf, withLocalDevice, StartupWorld.db, StartupWorld.withDb, AccessWorld.withDb,
    IdentityTables.withDevice]

/-- A registered device is left alone. -/
theorem ensureLocalDevice_of_registered {device : LocalDeviceIdentityRecord P}
    (hdevice : w.db.localDeviceIdentity = some device)
    (hregistered : (w.access.device? device.deviceId).isSome) (vaultId : String) :
    ((ensureLocalDeviceInVault vaultId).run w).2 = w ∧
      ∀ n, (ensureLocalDeviceInVault vaultId).cut n w = w := by
  constructor
  · rw [ensureLocalDeviceInVault, readLocalDeviceIdentity, Prog.run_query_bind, hdevice]
    dsimp only
    rw [Prog.run_query_bind, if_pos hregistered]
    rfl
  · rw [ensureLocalDeviceInVault, readLocalDeviceIdentity]
    apply Prog.forall_cut_query_bind (Q := (· = w)) rfl
    rw [hdevice]
    apply Prog.forall_cut_query_bind (Q := (· = w)) rfl
    rw [if_pos hregistered]
    exact fun n => Prog.cut_ret n _ w

/-- Without an owner of the vault nothing is registered. -/
theorem ensureLocalDevice_of_no_owner {vaultId : String}
    (hnone : w.db.vaultMembers.find? (isOwnerOf vaultId) = none) :
    ∀ n, (ensureLocalDeviceInVault vaultId).cut n w = w := by
  rw [ensureLocalDeviceInVault, readLocalDeviceIdentity]
  apply Prog.forall_cut_query_bind (Q := (· = w)) rfl
  cases w.db.localDeviceIdentity with
  | none => exact fun n => Prog.cut_ret n _ w
  | some device =>
    apply Prog.forall_cut_query_bind (Q := (· = w)) rfl
    split
    · exact fun n => Prog.cut_ret n _ w
    · apply Prog.forall_cut_query_bind (Q := (· = w)) rfl
      rw [hnone]
      exact fun n => Prog.cut_ret n _ w

/-- A device that is missing is registered under the owner of the vault. -/
theorem ensureLocalDevice_of_missing {device : LocalDeviceIdentityRecord P}
    (hdevice : w.db.localDeviceIdentity = some device)
    (hmissing : w.access.device? device.deviceId = none) {vaultId : String}
    {owner : VaultMemberRecord} (howner : w.db.vaultMembers.find? (isOwnerOf vaultId) = some owner)
    (huser : w.access.hasUser owner.userId = true) :
    ((ensureLocalDeviceInVault vaultId).run w).2 = withLocalDevice device owner w ∧
      ∀ n, (ensureLocalDeviceInVault vaultId).cut n w = w ∨
        (ensureLocalDeviceInVault vaultId).cut n w = withLocalDevice device owner w := by
  let refused (t : AccessWorld P) : Option DbError :=
    if (t.device? device.deviceId).isSome || t.hasUser owner.userId then none
    else some .foreignKeyViolation
  have hrefused : refused w.access = none := by simp [refused, huser]
  obtain ⟨hrun, hcount⟩ : (insertDeviceOrIgnore device.deviceId owner.userId
        device.deviceName).run w = (.ok (), withLocalDevice device owner w) ∧
      (insertDeviceOrIgnore device.deviceId owner.userId device.deviceName).count w = 1 := by
    obtain ⟨hrun, hcount⟩ := run_insert hrefused
    refine ⟨hrun.trans ?_, hcount⟩
    simp only [hmissing]
    rfl
  constructor
  · rw [ensureLocalDeviceInVault, readLocalDeviceIdentity, Prog.run_query_bind, hdevice]
    dsimp only
    rw [Prog.run_query_bind, hmissing, if_neg (by simp), Prog.run_query_bind, howner]
    dsimp only
    rw [Prog.run_bind_of_ok hrun]
    rfl
  · let Q (t : StartupWorld P) : Prop := t = w ∨ t = withLocalDevice device owner w
    rw [ensureLocalDeviceInVault, readLocalDeviceIdentity]
    apply Prog.forall_cut_query_bind (Q := Q) (.inl rfl)
    rw [hdevice]
    apply Prog.forall_cut_query_bind (Q := Q) (.inl rfl)
    rw [hmissing, if_neg (by simp)]
    apply Prog.forall_cut_query_bind (Q := Q) (.inl rfl)
    rw [howner]
    rintro (_ | n)
    · exact .inl (Prog.cut_zero _ w)
    · right
      rw [Prog.cut_bind_of_single hrun hcount]
      exact Prog.cut_ret n _ _

/-- The registration of the device completes the chain. -/
theorem ensureLocalDevice_settles (hs : ChainSettled w) :
    (∀ n, ChainSettled ((ensureLocalDeviceInVault (localVaultId w.db)).cut n w)) ∧
      (w.db.users ≠ [] →
        (identityOf ((ensureLocalDeviceInVault (localVaultId w.db)).run w).2.db).Bound) := by
  by_cases hnone : w.db.users = []
  · have hempty := hs.1.empty (List.map_eq_nil_iff.mpr hnone)
    have hmembers : w.db.vaultMembers = [] := hempty.2
    refine ⟨fun n => ?_, fun h => absurd hnone h⟩
    rw [ensureLocalDevice_of_no_owner (by rw [hmembers]; rfl)]
    exact hs
  · have husers : (identityOf w.db).userIds ≠ [] := fun h => hnone (List.map_eq_nil_iff.mp h)
    have hchain := hs.2.resolve_left husers
    obtain ⟨device, hdevice⟩ : ∃ device, w.db.localDeviceIdentity = some device := by
      rw [← Option.ne_none_iff_exists']
      exact fun h => hchain.identity (Option.map_eq_none_iff.mpr h)
    have hid : (identityOf w.db).deviceId = some device.deviceId :=
      congrArg (Option.map LocalDeviceIdentityRecord.deviceId) hdevice
    cases hfound : w.access.device? device.deviceId with
    | some row =>
      obtain ⟨hrun, hcut⟩ := ensureLocalDevice_of_registered hdevice
        (by rw [hfound]; rfl) (localVaultId w.db)
      refine ⟨fun n => by rw [hcut]; exact hs, fun _ => ?_⟩
      rw [hrun]
      have hrow : row.deviceId = device.deviceId := by simpa using List.find?_some hfound
      have hmem : (row.deviceId, row.userId) ∈ (identityOf w.db).devices :=
        List.mem_map_of_mem (List.mem_of_find?_eq_some hfound)
      have hlocal : (identityOf w.db).deviceId = some row.deviceId := by rw [hid, hrow]
      exact ⟨_, hmem, hlocal, hchain.bound _ hmem hlocal⟩
    | none =>
      obtain ⟨owner, howner⟩ : ∃ owner, w.db.vaultMembers.find? (isOwnerOf (localVaultId w.db)) =
          some owner := by
        obtain ⟨m, hm, hrole⟩ := hchain.exists_owner
        exact Option.isSome_iff_exists.mp (List.find?_isSome.mpr ⟨m, hm, hrole⟩)
      have hmem : owner ∈ (identityOf w.db).members := List.mem_of_find?_eq_some howner
      have hvault : owner.vaultId = localVaultId w.db := by
        have hrole := List.find?_some howner
        simp only [isOwnerOf, Bool.and_eq_true, decide_eq_true_eq] at hrole
        exact hrole.1
      have huser : w.access.hasUser owner.userId = true := by
        obtain ⟨v, hv, hid⟩ := mem_userIds.mp (hs.1.members owner hmem)
        exact List.any_eq_true.mpr ⟨v, hv, decide_eq_true hid⟩
      obtain ⟨hrun, hcut⟩ := ensureLocalDevice_of_missing hdevice hfound howner huser
      constructor
      · intro n
        rcases hcut n with h | h
        · rw [h]
          exact hs
        · rw [h, ChainSettled, identityOf_withLocalDevice]
          exact IdentityTables.Settled.withDevice hs husers hmem hvault
      · intro _
        rw [hrun, identityOf_withLocalDevice]
        exact ⟨_, List.mem_append_right _ (List.mem_singleton_self _), hid, owner, hmem, rfl,
          hvault⟩

/-! ## The vault and the identity of the device -/

theorem IdentityTables.Consistent.of_roster {db db' : VaultDb P}
    (h : (identityOf db).Consistent) (husers : db'.users = db.users)
    (hdevices : db'.devices = db.devices) (hmembers : db'.vaultMembers = db.vaultMembers) :
    (identityOf db').Consistent := by
  obtain ⟨hnodup, hdevice, hmember⟩ := h
  simp only [identityOf] at hnodup hdevice hmember
  rw [← husers] at hnodup hdevice hmember
  rw [← hdevices] at hdevice
  rw [← hmembers] at hmember
  exact ⟨hnodup, hdevice, hmember⟩

theorem fixes_bootstrapLocalVault :
    (bootstrapLocalVault : VaultProg P Bool).Fixes fun w =>
      (w.db.users, w.db.devices, w.db.vaultMembers) := by
  apply Prog.Fixes.bind
  · apply Prog.Fixes.bind (Prog.Fixes.query _)
    rintro (_ | existing)
    · exact Prog.Fixes.bind (Prog.Fixes.execReturning _ fun _ => rfl) fun _ =>
        Prog.Fixes.bind (Prog.Fixes.exec fun _ => rfl) fun _ => trivial
    · exact Prog.Fixes.bind (Prog.Fixes.ofExcept _) fun _ => trivial
  · intro found
    refine Prog.Fixes.bind ?_ fun _ => trivial
    apply Prog.Fixes.bind (Prog.Fixes.query _)
    rintro (_ | v)
    · exact Prog.Fixes.bind (Prog.Fixes.execReturning _ fun _ => rfl) fun _ =>
        Prog.Fixes.bind (Prog.Fixes.exec fun _ => rfl) fun _ => trivial
    · trivial

theorem keeps_bootstrapPolicies {I : StartupWorld P → Prop}
    (hpolicies : ∀ w policies, I w → I { w with syncPolicies := policies }) (env : StartupEnv)
    (bootstrapped : Bool) :
    (bootstrapPolicies env bootstrapped : StartupProg P Bool).Keeps I := by
  apply Prog.Keeps.bind (Prog.Keeps.query _)
  intro policies
  split
  · split
    · exact Prog.Keeps.bind (Prog.Keeps.exec fun w hw => hpolicies w _ hw) fun _ => trivial
    · trivial
  · trivial

/-- Where nobody is there yet, nobody is there afterwards. -/
theorem keeps_openIdentity_empty (env : StartupEnv) (databaseMissingOnStart : Bool) :
    (openIdentity env databaseMissingOnStart : StartupProg P (String × String)).Keeps
      fun w => w.db.users = [] ∧ (identityOf w.db).Consistent := by
  apply Prog.Keeps.bind
  · rw [bootstrapDefaultLocalVault]
    split
    · refine Prog.Keeps.bind ?_ fun _ => keeps_bootstrapPolicies (fun _ _ hw => hw) env _
      apply Prog.Keeps.mapError
      apply fixes_bootstrapLocalVault.keeps_zoom
      intro vault w hsame hw
      simp only [Prod.mk.injEq] at hsame
      exact ⟨hsame.1.trans hw.1, hw.2.of_roster hsame.1 hsame.2.1 hsame.2.2⟩
    · exact keeps_bootstrapPolicies (fun _ _ hw => hw) env _
  · intro _
    refine Prog.Keeps.bind ?_ fun _ => Prog.Keeps.bind (Prog.Keeps.query _) fun _ => trivial
    apply Prog.Keeps.bind (Prog.Keeps.query _)
    rintro (_ | existing)
    · exact Prog.Keeps.bind (Prog.Keeps.exec fun _ hw => ⟨hw.1, hw.2.1, hw.2.2, hw.2.3⟩) fun _ =>
        Prog.Keeps.bind (Prog.Keeps.query _) fun _ =>
          Prog.Keeps.bind (Prog.Keeps.ofOption _ _) fun _ => trivial
    · dsimp only
      split
      · split
        · exact Prog.Keeps.bind (Prog.Keeps.exec fun _ hw => ⟨hw.1, hw.2.1, hw.2.2, hw.2.3⟩)
            fun _ => Prog.Keeps.bind (Prog.Keeps.query _) fun _ => trivial
        · trivial
      · trivial

/-- A device that has its identity keeps it, under whatever name. -/
theorem keeps_openIdentity {t : IdentityTables} (hdevice : t.deviceId ≠ none)
    (users : List (UserRecord P)) (env : StartupEnv) :
    (openIdentity env false : StartupProg P (String × String)).Keeps
      fun w => identityOf w.db = t ∧ w.db.users = users := by
  apply Prog.Keeps.bind (keeps_bootstrapPolicies (fun _ _ hw => hw) env false)
  intro _
  refine Prog.Keeps.bind ?_ fun _ => Prog.Keeps.bind (Prog.Keeps.query _) fun _ => trivial
  apply Prog.Keeps.query_bind
  intro w hw
  obtain ⟨existing, hexisting⟩ : ∃ existing, w.db.localDeviceIdentity = some existing := by
    rw [← Option.ne_none_iff_exists']
    intro hnone
    exact hdevice (hw.1 ▸ Option.map_eq_none_iff.mpr hnone)
  rw [hexisting]
  dsimp only
  split
  · split
    · refine Prog.Keeps.bind (Prog.Keeps.exec ?_) fun _ =>
        Prog.Keeps.bind (Prog.Keeps.query _) fun _ => trivial
      intro w hw
      refine ⟨?_, hw.2⟩
      rw [← hw.1]
      simp [identityOf, StartupWorld.db, StartupWorld.withDb, AccessWorld.withDb,
        Function.comp_def]
    · trivial
  · trivial

/-- What is set is what this machine asks for. -/
def NameSettled (env : StartupEnv) (w : StartupWorld P) : Prop :=
  ∀ identity ∈ w.db.localDeviceIdentity, ∀ name ∈ preferredDeviceName env,
    identity.deviceName = name

def PoliciesSettled (env : StartupEnv) (w : StartupWorld P) : Prop :=
  env.defaultWatchDir.isSome → w.syncPolicies ≠ []

theorem run_bootstrapPolicies (env : StartupEnv) (bootstrapped : Bool) (w : StartupWorld P) :
    ∃ done policies, (bootstrapPolicies env bootstrapped).run w =
        (.ok done, { w with syncPolicies := policies }) ∧
      PoliciesSettled env { w with syncPolicies := policies } ∧
      (PoliciesSettled env w → policies = w.syncPolicies) := by
  rw [bootstrapPolicies, Prog.run_query_bind]
  cases hdir : env.defaultWatchDir with
  | none =>
    refine ⟨bootstrapped, w.syncPolicies, rfl, fun h => ?_, fun _ => rfl⟩
    rw [hdir] at h
    cases h
  | some dir =>
    by_cases hnone : w.syncPolicies = []
    · refine ⟨true, [policyOf "LOCAL" dir], ?_, fun _ => List.cons_ne_nil _ _, fun h => ?_⟩
      · dsimp only
        rw [if_pos hnone, setSyncPolicyTypeForPath, Prog.run_exec_bind, hnone]
        rfl
      · exact absurd hnone (h (by rw [hdir]; rfl))
    · refine ⟨bootstrapped, w.syncPolicies, ?_, fun _ => hnone, fun _ => rfl⟩
      dsimp only
      rw [if_neg hnone]
      rfl

/-- The identity of the device is there afterwards, under the name this machine asks for. -/
theorem run_ensureLocalDeviceIdentity (env : StartupEnv) (w : StartupWorld P) :
    ∃ device t, (ensureLocalDeviceIdentity env).run w = (.ok device.deviceId, t) ∧
      t.db.localDeviceIdentity = some device ∧ NameSettled env t ∧
      t.syncPolicies = w.syncPolicies := by
  rw [ensureLocalDeviceIdentity, readLocalDeviceIdentity, Prog.run_query_bind]
  cases hidentity : w.db.localDeviceIdentity with
  | none =>
    dsimp only
    rw [Db.upsertLocalDeviceIdentity, Prog.run_exec_bind, hidentity]
    refine ⟨_, _, rfl, rfl, ?_, rfl⟩
    rintro identity hidentity name hname
    obtain rfl := Option.mem_some.mp hidentity
    rw [hname]
    rfl
  | some existing =>
    dsimp only
    cases hname : preferredDeviceName env with
    | none =>
      refine ⟨existing, w, rfl, hidentity, ?_, rfl⟩
      intro _ _ name h
      rw [hname] at h
      cases h
    | some deviceName =>
      by_cases hsame : deviceName = existing.deviceName
      · refine ⟨existing, w, ?_, hidentity, ?_, rfl⟩
        · dsimp only
          rw [if_neg (not_not.mpr hsame)]
          rfl
        · intro identity h name hpreferred
          rw [hidentity] at h
          rw [hname] at hpreferred
          obtain rfl := Option.mem_some.mp h
          obtain rfl := Option.mem_some.mp hpreferred
          exact hsame.symm
      · let renamed : LocalDeviceIdentityRecord P := { existing with deviceName }
        refine ⟨renamed, w.withDb { w.db with localDeviceIdentity := some renamed }, ?_, rfl, ?_,
          rfl⟩
        · dsimp only
          rw [if_pos hsame, Db.updateLocalDeviceName, Prog.run_exec_bind, hidentity]
          rfl
        · intro identity h name hpreferred
          rw [hname] at hpreferred
          obtain rfl : renamed = identity := Option.mem_some.mp h
          exact Option.mem_some.mp hpreferred

theorem ensureLocalDeviceIdentity_of_settled {device : LocalDeviceIdentityRecord P}
    (hdevice : w.db.localDeviceIdentity = some device) (hname : NameSettled env w) :
    (ensureLocalDeviceIdentity env).run w = (.ok device.deviceId, w) := by
  rw [ensureLocalDeviceIdentity, readLocalDeviceIdentity, Prog.run_query_bind, hdevice]
  dsimp only
  cases hpreferred : preferredDeviceName env with
  | none => rfl
  | some deviceName =>
    dsimp only
    have hsame : device.deviceName = deviceName := hname device hdevice deviceName hpreferred
    rw [if_neg (not_not.mpr hsame.symm)]
    rfl

theorem neverFails_ensureLocalVaultParams (config : RootKdfParams) :
    (ensureLocalVaultParams config : VaultProg P Bool).NeverFails := by
  apply Prog.NeverFails.bind (Prog.NeverFails.query _)
  rintro (_ | v)
  · exact Prog.NeverFails.bind (Prog.NeverFails.execReturning _ _) fun _ =>
      Prog.NeverFails.bind (Prog.NeverFails.exec _) fun _ => trivial
  · trivial

/-- A database without a configuration is given one, and a vault. -/
theorem run_bootstrapLocalVault {vault : VaultWorld P} (hconfig : vault.db.vaultConfig = none) :
    ∃ created t, bootstrapLocalVault.run vault = (.ok created, t) := by
  obtain ⟨config, t, hrun⟩ : ∃ config t, (ensureVaultConfig : VaultProg P _).run vault =
      (.ok (config, true), t) := by
    rw [ensureVaultConfig, Db.getVaultConfig, selectDb, Prog.run_query_bind, hconfig]
    exact ⟨_, _, rfl⟩
  obtain ⟨created, u, hcreated⟩ := (neverFails_ensureLocalVaultParams config).run t
  refine ⟨true || created, u, ?_⟩
  rw [bootstrapLocalVault, Prog.run_bind_of_ok hrun]
  dsimp only
  rw [Prog.run_bind_of_ok hcreated]
  rfl

/-- A start gets as far as the migration, with the settings of this machine in force. -/
theorem run_openIdentity (env : StartupEnv) {missing : Bool}
    (hmissing : missing = true → w.db.vaultConfig = none) :
    ∃ device t, (openIdentity env missing).run w =
        (.ok (device.deviceId, localVaultId t.db), t) ∧
      t.db.localDeviceIdentity = some device ∧ NameSettled env t ∧ PoliciesSettled env t := by
  obtain ⟨done, t, hbootstrap, hpolicies⟩ : ∃ done t,
      (bootstrapDefaultLocalVault env missing false).run w = (.ok done, t) ∧
        PoliciesSettled env t := by
    cases missing with
    | false =>
      obtain ⟨done, policies, hrun, hpolicies, -⟩ := run_bootstrapPolicies env false w
      exact ⟨done, _, hrun, hpolicies⟩
    | true =>
      obtain ⟨created, vault, hrun⟩ := run_bootstrapLocalVault (hmissing rfl)
      let u : StartupWorld P := { w with access := { w.access with vault } }
      have hvault : (onStartupVault bootstrapLocalVault).run w = (.ok created, u) := by
        rw [onStartupVault, Prog.run_mapError, Prog.run_zoom
          (fun t : StartupWorld P => t.access.vault)
          (fun vault t => { t with access := { t.access with vault } }) (fun _ _ => rfl)
          (fun _ _ _ => rfl) fun _ => rfl]
        dsimp only
        rw [hrun]
        rfl
      obtain ⟨done, policies, hpoliciesRun, hpolicies, -⟩ := run_bootstrapPolicies env created u
      refine ⟨done, _, ?_, hpolicies⟩
      rw [bootstrapDefaultLocalVault, if_pos (by rfl : (true && !false) = true),
        Prog.run_bind_of_ok hvault, hpoliciesRun]
  obtain ⟨device, u, hdevice, hidentity, hname, hsame⟩ := run_ensureLocalDeviceIdentity env t
  refine ⟨device, u, ?_, hidentity, hname, fun h => hsame ▸ hpolicies h⟩
  rw [openIdentity, Prog.run_bind_of_ok hbootstrap, Prog.run_bind_of_ok hdevice]
  rfl

/-- Where the settings of this machine are in force, they change nothing. -/
theorem run_openIdentity_of_settled {device : LocalDeviceIdentityRecord P}
    (hdevice : w.db.localDeviceIdentity = some device) (hname : NameSettled env w)
    (hpolicies : PoliciesSettled env w) :
    (openIdentity env false).run w = (.ok (device.deviceId, localVaultId w.db), w) := by
  obtain ⟨done, policies, hrun, -, hsame⟩ := run_bootstrapPolicies env false w
  rw [hsame hpolicies] at hrun
  have hbootstrap : (bootstrapDefaultLocalVault env false false).run w = (.ok done, w) := hrun
  rw [openIdentity, Prog.run_bind_of_ok hbootstrap,
    Prog.run_bind_of_ok (ensureLocalDeviceIdentity_of_settled hdevice hname)]
  rfl

/-! ## The owner -/

/-- No stop comes between the three inserts of the owner, the first of which is the third
statement. -/
def SparesInserts (n : ℕ) (db : VaultDb P) : Prop := db.users = [] → n ≠ 3 ∧ n ≠ 4

theorem FreshIds.audited {device : LocalDeviceIdentityRecord P} (hfresh : FreshIds env 0 w)
    (hnone : w.db.users = []) (vaultId : String) :
    FreshIds env 1 (audited env device vaultId (withOwnerRows env device vaultId w)) := by
  refine ⟨hfresh.injective, hfresh.notLegacy, ?_⟩
  intro i hi hmem
  change env.newUserId i ∈ (w.db.users ++ [_]).map _ at hmem
  rw [hnone] at hmem
  have heq : i = 0 := hfresh.injective (by simpa using hmem)
  omega

/-- The migration leaves an owner. -/
theorem migrate_settles (hs : ChainSettled w) (hidentity : w.db.localDeviceIdentity ≠ none)
    (hfresh : FreshIds env 0 w) {migrated : StartupWorld P}
    (hmigrated : ((migrateSingleToMultiUser env (localVaultId w.db)).run w).2 = migrated) :
    (∀ n, SparesInserts n w.db →
        ChainSettled ((migrateSingleToMultiUser env (localVaultId w.db)).cut n w)) ∧
      ChainSettled migrated ∧ migrated.db.users ≠ [] ∧ FreshIds env 1 migrated ∧
      (w.db.users = [] → renamable migrated.db = []) ∧
      (w.db.users ≠ [] → migrated = w ∧
        (migrateSingleToMultiUser env (localVaultId w.db)).count w = 1) := by
  obtain ⟨device, hdevice⟩ := Option.ne_none_iff_exists'.mp hidentity
  by_cases hnone : w.db.users = []
  · obtain ⟨hrun, hearly, hlate⟩ := migrate_of_no_users env hs.1 hnone hdevice
      (localVaultId w.db)
    have hsettled : ChainSettled (withOwnerRows env device (localVaultId w.db) w) := by
      rw [ChainSettled, identityOf_withOwnerRows]
      exact IdentityTables.Settled.withOwner hs (List.map_eq_nil_iff.mpr hnone)
        (congrArg (Option.map LocalDeviceIdentityRecord.deviceId) hdevice) _
    obtain rfl : audited env device (localVaultId w.db)
        (withOwnerRows env device (localVaultId w.db) w) = migrated := by
      rw [← hmigrated, hrun]
    refine ⟨?_, hsettled, ?_, hfresh.audited hnone _, fun _ => ?_, fun h => absurd hnone h⟩
    · intro n hn
      rcases Nat.lt_or_ge n 3 with hlt | hge
      · rw [hearly n hlt]
        exact hs
      · obtain ⟨hthree, hfour⟩ := hn hnone
        obtain ⟨m, rfl⟩ : ∃ m, n = m + 5 := ⟨n - 5, by omega⟩
        rcases hlate m with h | h
        · rw [h]
          exact hsettled
        · rw [h]
          exact hsettled
    · exact List.append_ne_nil_of_right_ne_nil _ (List.cons_ne_nil _ _)
    · change ((((w.db.users ++ [_]).map _).filter _).takeWhile _ : List String) = []
      rw [hnone]
      simp [hfresh.notLegacy]
  · obtain ⟨hrun, hcount⟩ := migrate_of_users env hnone (localVaultId w.db)
    obtain rfl : w = migrated := by rw [← hmigrated, hrun]
    refine ⟨?_, hs, hnone, ⟨hfresh.injective, hfresh.notLegacy, fun i _ => hfresh.unused i
      (Nat.zero_le i)⟩, fun h => absurd h hnone, fun _ => ⟨rfl, hcount⟩⟩
    rintro (_ | n) _
    · rw [Prog.cut_zero]
      exact hs
    · rw [Prog.cut_of_count_le (by omega), hrun]
      exact hs

end OmniDrive
