import OmniDrive.Crypto.Symbolic
import OmniDrive.Startup.Steps

/-!
# Startups, unlocks and joins

A start re-establishes the chain in every state that starts, unlocks and joins can leave, as long
as none of them is stopped between the statements that only make sense together, no unlock has to
create the vault, and a joined vault has a chain of its own.
-/

namespace OmniDrive

open StatementProgram GuardedRuns Tables

variable {P : Primitives} {w : StartupWorld P} {env : StartupEnv}

/-! ## A whole startup -/

theorem ownsLocalDevice_iff {userId : String} {db : VaultDb P} :
    OwnsLocalDevice userId db ↔ ∃ d ∈ (identityOf db).devices,
      (identityOf db).deviceId = some d.1 ∧ d.2 = userId := by
  constructor
  · rintro ⟨d, hd, hid, huser⟩
    exact ⟨_, List.mem_map_of_mem hd, hid, huser⟩
  · rintro ⟨d, hd, hid, huser⟩
    obtain ⟨row, hrow, rfl⟩ := List.mem_map.mp hd
    exact ⟨row, hrow, hid, huser⟩

/-- Which stops spare the owner of the device depends on the users and the chain. -/
theorem SparesOwner.congr {db db' : VaultDb P} (hidentity : identityOf db' = identityOf db)
    (husers : db'.users = db.users) {n k : ℕ} (h : SparesOwner n k db) : SparesOwner n k db' := by
  have hrenamable : renamable db' = renamable db := by
    have hcopyable : isCopyable db' = isCopyable db := by
      funext userId
      rw [isCopyable, isCopyable, husers]
    rw [renamable, renamable, legacyUserIds, legacyUserIds, husers, hcopyable]
  intro i userId hget howner
  rw [hrenamable] at hget
  rw [ownsLocalDevice_iff, hidentity, ← ownsLocalDevice_iff] at howner
  exact h i userId hget howner

/-- The state in which a start leaves off before the migration. -/
theorem openIdentity_settles (hs : ChainSettled w) {missing : Bool}
    (hmissing : missing = true → w.db.users = []) {t : StartupWorld P}
    (ht : ((openIdentity env missing).run w).2 = t) :
    (∀ n, ChainSettled ((openIdentity env missing).cut n w)) ∧ ChainSettled t ∧
      (identityOf t.db).userIds = (identityOf w.db).userIds ∧
      (w.db.users ≠ [] → identityOf t.db = identityOf w.db ∧ t.db.users = w.db.users) := by
  by_cases hnone : w.db.users = []
  · have hkeep := keeps_openIdentity_empty (P := P) env missing
    have hend := hkeep.run ⟨hnone, hs.1⟩
    rw [ht] at hend
    refine ⟨fun n => ?_, ⟨hend.2, .inl (List.map_eq_nil_iff.mpr hend.1)⟩, ?_, absurd hnone⟩
    · have hcut := hkeep.cut n ⟨hnone, hs.1⟩
      exact ⟨hcut.2, .inl (List.map_eq_nil_iff.mpr hcut.1)⟩
    · change t.db.users.map _ = w.db.users.map _
      rw [hend.1, hnone]
  · obtain rfl : missing = false := by
      cases missing with
      | false => rfl
      | true => exact absurd (hmissing rfl) hnone
    have husers : (identityOf w.db).userIds ≠ [] := fun h => hnone (List.map_eq_nil_iff.mp h)
    have hkeep := keeps_openIdentity (hs.2.resolve_left husers).identity w.db.users env
    have hend := hkeep.run ⟨rfl, rfl⟩
    rw [ht] at hend
    refine ⟨fun n => ?_, ?_, congrArg IdentityTables.userIds hend.1, fun _ => hend⟩
    · have hcut := (hkeep.cut n ⟨rfl, rfl⟩).1
      rw [ChainSettled, hcut]
      exact hs
    · rw [ChainSettled, hend.1]
      exact hs

theorem isBound_of_bound {db : VaultDb P} {device : LocalDeviceIdentityRecord P}
    (hdevice : db.localDeviceIdentity = some device) (hbound : (identityOf db).Bound) :
    isBound (localVaultId db) device.deviceId db = true := by
  obtain ⟨d, hd, hid, m, hm, huser, hvault⟩ := hbound
  obtain ⟨row, hrow, rfl⟩ := List.mem_map.mp hd
  have hid : db.localDeviceIdentity.map (·.deviceId) = some row.deviceId := hid
  rw [hdevice] at hid
  have hsame : row.deviceId = device.deviceId := (Option.some.inj hid).symm
  refine List.any_eq_true.mpr ⟨row, hrow, ?_⟩
  rw [Bool.and_eq_true]
  refine ⟨decide_eq_true hsame, List.any_eq_true.mpr ⟨m, hm, ?_⟩⟩
  rw [Bool.and_eq_true]
  exact ⟨decide_eq_true huser, decide_eq_true hvault⟩

theorem device?_of_bound {device : LocalDeviceIdentityRecord P}
    (hdevice : w.db.localDeviceIdentity = some device) (hbound : (identityOf w.db).Bound) :
    (w.access.device? device.deviceId).isSome := by
  obtain ⟨d, hd, hid, -⟩ := hbound
  obtain ⟨row, hrow, rfl⟩ := List.mem_map.mp hd
  have hid : w.db.localDeviceIdentity.map (·.deviceId) = some row.deviceId := hid
  rw [hdevice] at hid
  refine List.find?_isSome.mpr ⟨row, hrow, ?_⟩
  simpa using (Option.some.inj hid).symm

/-- A vault that is there, its device and its owner. -/
theorem run_verifyVaultDeviceBinding {vaultId deviceId : String}
    (hbound : isBound vaultId deviceId w.db = true) :
    (verifyVaultDeviceBinding vaultId deviceId).run w = (.ok (), w) := by
  rw [verifyVaultDeviceBinding]
  split
  · rfl
  · rw [Prog.run_query_bind, if_pos hbound]
    rfl

theorem fixes_verifyVaultDeviceBinding (vaultId deviceId : String) :
    (verifyVaultDeviceBinding vaultId deviceId : StartupProg P Unit).Fixes id := by
  rw [verifyVaultDeviceBinding]
  split
  · trivial
  · apply Prog.Fixes.bind (Prog.Fixes.query _)
    intro bound
    split <;> trivial

/-- Two starts of the same machine. -/
def SameSettings (env env' : StartupEnv) : Prop :=
  env'.preferredDeviceName = env.preferredDeviceName ∧ env'.defaultWatchDir = env.defaultWatchDir

/-- One owner, the device under a member of the vault, and nothing left to do for the next start
of the machine. -/
structure Established (env : StartupEnv) (w : StartupWorld P) : Prop where
  owner : w.db.vaultMembers.countP (IdentityTables.isMigratedOwner (localVaultId w.db)) = 1
  bound : ∃ device, w.db.localDeviceIdentity = some device ∧
    isBound (localVaultId w.db) device.deviceId w.db = true
  again : ∀ env', SameSettings env env' → (startup env' false).run w = (.ok (), w)

/-- A complete chain under the settings of the machine is established. -/
theorem established_of_bound (hs : ChainSettled w) (husers : w.db.users ≠ [])
    (hbound : (identityOf w.db).Bound) (hdone : BackfillDone w.db)
    {device : LocalDeviceIdentityRecord P} (hdevice : w.db.localDeviceIdentity = some device)
    (hname : NameSettled env w) (hpolicies : PoliciesSettled env w) : Established env w := by
  have hids : (identityOf w.db).userIds ≠ [] := fun h => husers (List.map_eq_nil_iff.mp h)
  have hbind := isBound_of_bound hdevice hbound
  refine ⟨(hs.2.resolve_left hids).owner, ⟨device, hdevice, hbind⟩, ?_⟩
  rintro env' ⟨hsameName, hsameDir⟩
  have hname' : NameSettled env' w := by
    intro identity hidentity name h
    rw [preferredDeviceName, hsameName, ← preferredDeviceName] at h
    exact hname identity hidentity name h
  have hpolicies' : PoliciesSettled env' w := by
    intro h
    rw [hsameDir] at h
    exact hpolicies h
  rw [startup, Prog.run_bind_of_ok (run_openIdentity_of_settled hdevice hname' hpolicies')]
  dsimp only
  rw [Prog.run_bind_of_ok (run_nonFatal _ w), (migrate_of_users env' husers _).1,
    Prog.run_bind_of_ok (run_nonFatal _ w), backfillUuidUserIds_of_done hdone,
    Prog.run_bind_of_ok (run_nonFatal _ w),
    (ensureLocalDevice_of_registered hdevice (device?_of_bound hdevice hbound) _).1]
  exact run_verifyVaultDeviceBinding hbind

/-- The stop of a start comes neither between the inserts of the owner nor between the two updates
that rename the owner of the device. -/
def StopsWell (env : StartupEnv) (missing : Bool) (n : ℕ) (w : StartupWorld P) : Prop :=
  let start := (openIdentity env missing).count w
  (w.db.users = [] → n ≠ start + 3 ∧ n ≠ start + 4) ∧ SparesOwner n (start + 3) w.db

/-- A start establishes the chain that can be completed, and costs it nothing when it is stopped
well. -/
theorem startup_settles (hs : ChainSettled w) {missing : Bool}
    (hmissing : missing = true → w.db.vaultConfig = none ∧ w.db.users = [])
    (hfresh : FreshIds env 0 w) :
    (∀ n, StopsWell env missing n w → ChainSettled ((startup env missing).cut n w)) ∧
      ∃ t, (startup env missing).run w = (.ok (), t) ∧ Established env t := by
  obtain ⟨device, t, hopen, hdevice, hname, hpolicies⟩ :=
    run_openIdentity env fun h => (hmissing h).1
  obtain ⟨hopenCut, ht, hids, hsame⟩ := openIdentity_settles (t := t) hs (fun h => (hmissing h).2)
    (congrArg (·.2) hopen)
  have hfreshT : FreshIds env 0 t :=
    ⟨hfresh.injective, hfresh.notLegacy, fun i hi => hids ▸ hfresh.unused i hi⟩
  have hidentity : t.db.localDeviceIdentity ≠ none := by rw [hdevice]; exact Option.some_ne_none _
  have hempty : t.db.users = [] ↔ w.db.users = [] := by
    have hlength := congrArg List.length hids
    simp only [identityOf, List.length_map] at hlength
    rw [← List.length_eq_zero_iff, ← List.length_eq_zero_iff, hlength]
  -- the owner
  obtain ⟨u, hu⟩ : ∃ u, ((migrateSingleToMultiUser env (localVaultId t.db)).run t).2 = u :=
    ⟨_, rfl⟩
  obtain ⟨hmigrateCut, hsettledU, husersU, hfreshU, hnew, hold⟩ :=
    migrate_settles ht hidentity hfreshT hu
  have hsettingsU : settingsOf u = settingsOf t := by
    rw [← hu]
    exact (fixes_migrateSingleToMultiUser env _).run t
  -- the legacy users
  obtain ⟨v, hv⟩ : ∃ v, ((backfillUuidUserIds env).run u).2 = v := ⟨_, rfl⟩
  obtain ⟨hbackfillCut, hdoneV, husersV⟩ := backfillUuidUserIds_settles hsettledU hfreshU
  rw [hv] at hdoneV husersV
  have hsettingsV : settingsOf v = settingsOf t := by
    rw [← hv, (fixes_backfillUuidUserIds env).run u, hsettingsU]
  have hsettledV : ChainSettled v := by
    have hend := hbackfillCut (9 * (backfillUuidUserIds env).count u) fun i _ _ _ h => by omega
    rwa [Prog.cut_of_count_le (by omega), hv] at hend
  have hvaultV : localVaultId v.db = localVaultId t.db :=
    congrArg (fun x => (x.1.map (·.vaultId)).getD "local-vault") hsettingsV
  -- the device
  obtain ⟨x, hx⟩ : ∃ x, ((ensureLocalDeviceInVault (localVaultId v.db)).run v).2 = x := ⟨_, rfl⟩
  obtain ⟨hensureCut, hboundX⟩ := ensureLocalDevice_settles hsettledV
  rw [hx] at hboundX
  have hsettledX : ChainSettled x := by
    have hend := hensureCut ((ensureLocalDeviceInVault (localVaultId v.db)).count v)
    rwa [Prog.cut_of_count_le (Nat.le_refl _), hx] at hend
  have hsettingsX : settingsOf x = settingsOf t := by
    have hfix : (ensureLocalDeviceInVault (localVaultId v.db)).Fixes (settingsOf (P := P)) :=
      fixes_ensureLocalDeviceInVault (fun _ _ => rfl) _
    rw [← hx, hfix.run v, hsettingsV]
  have husersX : x.db.users = v.db.users := by
    have hfix : (ensureLocalDeviceInVault (localVaultId v.db)).Fixes
        fun w : StartupWorld P => w.db.users :=
      fixes_ensureLocalDeviceInVault (fun _ _ => rfl) _
    rw [← hx]
    exact hfix.run v
  have hvaultX : localVaultId x.db = localVaultId t.db :=
    congrArg (fun x => (x.1.map (·.vaultId)).getD "local-vault") hsettingsX
  have hdeviceX : x.db.localDeviceIdentity = some device :=
    (congrArg (·.2.1) hsettingsX).trans hdevice
  rw [hvaultV] at hensureCut hx
  constructor
  · intro n hn
    have hverify := fixes_verifyVaultDeviceBinding (P := P) (localVaultId t.db) device.deviceId
    revert hn
    refine Prog.forall_cut_bind (Q := fun n s => StopsWell env missing n w → ChainSettled s) hopen
      (fun n _ _ => hopenCut n) (fun n => ?_) n
    refine Prog.forall_cut_bind (Q := fun m s => StopsWell env missing
      ((openIdentity env missing).count w + m) w → ChainSettled s) (run_nonFatal _ t)
      (fun m _ hm => ?_) (fun m => ?_) n
    · rw [cut_nonFatal]
      apply hmigrateCut
      intro hnone
      have hspares := hm.1 (hempty.mp hnone)
      omega
    · rw [hu, count_nonFatal]
      refine Prog.forall_cut_bind (Q := fun m s => StopsWell env missing
        ((openIdentity env missing).count w +
          ((migrateSingleToMultiUser env (localVaultId t.db)).count t + m)) w → ChainSettled s)
        (run_nonFatal _ u) (fun m _ hm => ?_) (fun m _ => ?_) m
      · rw [cut_nonFatal]
        apply hbackfillCut
        intro i userId hget howner
        by_cases hnone : t.db.users = []
        · rw [hnew hnone] at hget
          cases hget
        · obtain ⟨rfl, hcount⟩ := hold hnone
          obtain ⟨hidentityT, husersT⟩ := hsame fun h => hnone (hempty.mpr h)
          have hspares := (hm.2.congr hidentityT husersT) i userId hget howner
          omega
      · rw [hv, Prog.Fixes.cut_bind fun _ => hverify, cut_nonFatal]
        exact hensureCut m
  · refine ⟨x, ?_, established_of_bound hsettledX ?_ (hboundX (husersV husersU)) ?_ hdeviceX ?_ ?_⟩
    · rw [startup, Prog.run_bind_of_ok hopen]
      dsimp only
      rw [Prog.run_bind_of_ok (run_nonFatal _ t), hu, Prog.run_bind_of_ok (run_nonFatal _ u), hv,
        Prog.run_bind_of_ok (run_nonFatal _ v), hx, ← hvaultX]
      exact run_verifyVaultDeviceBinding
        (isBound_of_bound hdeviceX (hboundX (husersV husersU)))
    · rw [husersX]
      exact husersV husersU
    · intro userId huser
      rw [legacyUserIds, husersX] at huser
      rw [isCopyable, husersX]
      exact hdoneV userId huser
    · intro identity hidentity
      rw [hdeviceX, ← hdevice] at hidentity
      exact hname identity hidentity
    · intro h
      have hsame : x.syncPolicies = t.syncPolicies := congrArg (·.2.2) hsettingsX
      rw [hsame]
      exact hpolicies h

/-! ## Unlocks -/

section Unlock

open VaultKeyStore

variable {t : IdentityTables}

theorem keeps_sealTokens_identity (pairs : List (String × String)) :
    (sealPlaintextTokens pairs).Keeps fun vault : VaultWorld P => identityOf vault.db = t := by
  have hupdate : ∀ userId (f : UserRecord P → UserRecord P), (∀ u, (f u).userId = u.userId) →
      (Db.updateUser userId f).Keeps fun vault : VaultWorld P => identityOf vault.db = t := by
    intro userId f hf
    apply Prog.Keeps.exec
    intro vault hvault
    rw [← hvault]
    have hids : (updateWhere (·.userId = userId) f vault.db.users).map (·.userId) =
        vault.db.users.map (·.userId) := by
      rw [updateWhere, List.map_map]
      apply List.map_congr_left
      intro u _
      rw [Function.comp_apply]
      split
      · exact hf u
      · rfl
    simp only [identityOf, hids]
  induction pairs with
  | nil => trivial
  | cons pair rest ih =>
    rw [sealPlaintextTokens]
    apply Prog.Keeps.bind
    · apply Prog.Keeps.attempt
      rw [sealOauthToken]
      apply Prog.Keeps.bind
      · exact Prog.Keeps.bind (Prog.Keeps.query _) fun _ => Prog.Keeps.ofOption _ _
      · intro evk
        exact Prog.Keeps.bind (Prog.Keeps.execReturning _ fun _ hw => hw) fun _ => trivial
    · intro sealed
      cases sealed with
      | ok cipher =>
        have hstore : (Db.storeEncryptedRefreshToken pair.1 cipher).Keeps
            fun vault : VaultWorld P => identityOf vault.db = t := hupdate _ _ fun _ => rfl
        have hclear : (Db.clearPlaintextRefreshToken pair.1).Keeps
            fun vault : VaultWorld P => identityOf vault.db = t := hupdate _ _ fun _ => rfl
        apply Prog.Keeps.bind hstore
        intro _
        exact Prog.Keeps.bind hclear fun _ => ih
      | error e => exact ih

theorem keeps_ensureVaultConfig_identity :
    (ensureVaultConfig : VaultProg P _).Keeps fun vault => identityOf vault.db = t := by
  apply Prog.Keeps.bind (Prog.Keeps.query _)
  rintro (_ | existing)
  · exact Prog.Keeps.bind (Prog.Keeps.execReturning _ fun _ hw => hw) fun _ =>
      Prog.Keeps.bind (Prog.Keeps.exec fun _ hw => hw) fun _ => trivial
  · exact Prog.Keeps.bind (Prog.Keeps.ofExcept _) fun _ => trivial

theorem keeps_unlockKeys_identity (rootKeys : RootKeys P) (vaultParams : Option (VaultRecord P)) :
    (unlockKeys rootKeys vaultParams).Keeps fun vault => identityOf vault.db = t := by
  rw [unlockKeys]
  split
  · exact Prog.Keeps.bind (Prog.Keeps.ofExcept _) fun _ => trivial
  · apply Prog.Keeps.bind (Prog.Keeps.execReturning _ fun _ hw => hw)
    intro envelopeKey
    refine Prog.Keeps.bind (Prog.Keeps.exec ?_) fun _ => trivial
    intro vault hvault
    rw [← hvault]
    simp [identityOf, Db.updateVaultState, Function.comp_def]

/-- An unlock keeps the identity of a vault that is there. -/
theorem keeps_unlock_identity (hvault : t.vaultId ≠ none) (passphrase : String) :
    (unlock passphrase).Keeps fun vault : VaultWorld P => identityOf vault.db = t := by
  rw [unlock]
  split
  · trivial
  · apply Prog.Keeps.bind keeps_ensureVaultConfig_identity
    intro found
    apply Prog.Keeps.bind
    · apply Prog.Keeps.query_bind
      intro vault hw
      obtain ⟨v, hv⟩ : ∃ v, vault.db.vaultState = some v := by
        rw [← Option.ne_none_iff_exists']
        intro hnone
        exact hvault (hw ▸ Option.map_eq_none_iff.mpr hnone)
      dsimp only
      rw [hv]
      trivial
    · intro _
      apply Prog.Keeps.bind (Prog.Keeps.ofOption _ _)
      intro rootKeys
      apply Prog.Keeps.bind (Prog.Keeps.query _)
      intro vaultParams
      apply Prog.Keeps.bind (keeps_unlockKeys_identity _ _)
      intro unlocked
      apply Prog.Keeps.bind (Prog.Keeps.exec fun _ hw => hw)
      intro _
      apply Prog.Keeps.bind (Prog.Keeps.query _)
      intro pairs
      exact Prog.Keeps.bind (keeps_sealTokens_identity pairs) fun _ => trivial

/-- An unlock gets as far as the creation of the vault. -/
def CreatesVault (passphrase : String) (n : ℕ) (vault : VaultWorld P) : Prop :=
  vault.db.vaultState = none ∧ passphrase ≠ "" ∧
    (∃ found t, (ensureVaultConfig : VaultProg P _).run vault = (.ok found, t)) ∧
    (ensureVaultConfig : VaultProg P _).count vault + 2 < n

theorem unlock_keeps_identity {passphrase : String} {n : ℕ} {vault : VaultWorld P}
    (h : ¬ CreatesVault passphrase n vault) :
    identityOf ((unlock passphrase).cut n vault).db = identityOf vault.db := by
  by_cases hstate : vault.db.vaultState = none
  · by_cases hpassphrase : passphrase = ""
    · rw [unlock, if_pos hpassphrase, Prog.cut_fail]
    · rw [unlock, if_neg hpassphrase]
      have hconfig := keeps_ensureVaultConfig_identity (P := P) (t := identityOf vault.db)
      rcases hrun : (ensureVaultConfig : VaultProg P _).run vault with ⟨e | ⟨config, initialized⟩, u⟩
      · rw [Prog.cut_bind_of_error hrun]
        exact hconfig.cut n rfl
      · have hn : n ≤ (ensureVaultConfig : VaultProg P _).count vault + 2 := by
          by_contra hlt
          exact h ⟨hstate, hpassphrase, ⟨_, u, hrun⟩, by omega⟩
        have hu : u.db.vaultState = none := by
          have hend := hconfig.run (s := vault) rfl
          rw [hrun] at hend
          exact Option.map_eq_none_iff.mp
            ((congrArg IdentityTables.vaultId hend).trans (Option.map_eq_none_iff.mpr hstate))
        have hsame : identityOf u.db = identityOf vault.db := by
          have hend := hconfig.run (s := vault) rfl
          rwa [hrun] at hend
        revert hn
        refine Prog.forall_cut_bind (Q := fun n s =>
          n ≤ (ensureVaultConfig : VaultProg P _).count vault + 2 →
            identityOf s.db = identityOf vault.db) hrun (fun n _ _ => hconfig.cut n rfl) ?_ n
        intro m hm
        -- the row of the vault comes behind a query and the draw of its salt
        rcases m with _ | _ | _ | m
        · rw [Prog.cut_zero]
          exact hsame
        · exact hsame
        · dsimp only
          rw [ensureLocalVaultParams, Db.getVaultParams, selectDb, Prog.bind_assoc,
            Prog.cut_query_bind, hu]
          exact hsame
        · omega
  · exact (keeps_unlock_identity (fun hnone => hstate (Option.map_eq_none_iff.mp hnone))
      passphrase).cut n rfl

end Unlock

theorem cut_onStartupVault {α : Type} (p : VaultProg P α) (n : ℕ) (w : StartupWorld P) :
    (onStartupVault p).cut n w =
      { w with access := { w.access with vault := p.cut n w.access.vault } } := by
  rw [onStartupVault, Prog.cut_mapError, Prog.cut_zoom (fun t : StartupWorld P => t.access.vault)
    (fun vault t => { t with access := { t.access with vault } }) (fun _ _ => rfl)
    (fun _ _ _ => rfl) fun _ => rfl]

/-! ## Joins -/

/-- A snapshot that the graft takes. -/
def Accepts (snapshot : VaultDb P) (refused : Bool) : Bool :=
  !refused && snapshot.vaultState.isSome && identityRowsFit snapshot

/-- The chain of a snapshot, for the device that joins: nobody is there, or one owner is, and the
device is under a member where it is listed already. -/
def HasChain (snapshot : VaultDb P) (deviceId : Option String) : Prop :=
  snapshot.users = [] ∨
    IdentityTables.Chain (localVaultId snapshot) { identityOf snapshot with deviceId }

theorem consistent_of_identityRowsFit {snapshot : VaultDb P}
    (h : identityRowsFit snapshot = true) : (identityOf snapshot).Consistent := by
  simp only [identityRowsFit, Bool.and_eq_true, decide_eq_true_eq, List.all_eq_true,
    List.any_eq_true] at h
  obtain ⟨⟨⟨husers, -⟩, hdevices⟩, hmembers⟩ := h
  refine ⟨husers, ?_, ?_⟩
  · intro d hd
    obtain ⟨row, hrow, rfl⟩ := List.mem_map.mp hd
    obtain ⟨u, hu, hid⟩ := hdevices row hrow
    exact List.mem_map.mpr ⟨u, hu, hid⟩
  · intro m hm
    obtain ⟨⟨u, hu, hid⟩, -⟩ := hmembers m hm
    exact List.mem_map.mpr ⟨u, hu, hid⟩

/-- The tables behind a graft are those of the snapshot, beside the identity of the device. -/
theorem identityOf_graftIdentity {snapshot : VaultDb P} (hvault : snapshot.vaultState.isSome)
    (db : VaultDb P) :
    identityOf (graftIdentity snapshot db) =
      { identityOf snapshot with deviceId := (identityOf db).deviceId } := by
  obtain ⟨remote, hremote⟩ := Option.isSome_iff_exists.mp hvault
  rcases hstate : db.vaultState with _ | state <;>
    simp [identityOf, graftIdentity, hremote, hstate, Function.comp_def]

theorem settled_graft {snapshot : VaultDb P} {refused : Bool}
    (haccepts : Accepts snapshot refused = true)
    (hchain : HasChain snapshot (identityOf w.db).deviceId) :
    ChainSettled (w.withDb (graftIdentity snapshot w.db)) := by
  simp only [Accepts, Bool.and_eq_true] at haccepts
  obtain ⟨⟨-, hvault⟩, hfit⟩ := haccepts
  have hconsistent := consistent_of_identityRowsFit hfit
  change (identityOf (graftIdentity snapshot w.db)).Settled
  rw [identityOf_graftIdentity hvault]
  exact ⟨⟨hconsistent.users, hconsistent.devices, hconsistent.members⟩,
    hchain.imp_left fun hnone => List.map_eq_nil_iff.mpr hnone⟩

/-- The join of a vault with a chain of its own leaves a chain, wherever it is stopped. -/
theorem joinExisting_settles (hs : ChainSettled w) {snapshot : VaultDb P} {refused : Bool}
    (hchain : Accepts snapshot refused = true →
      HasChain snapshot (identityOf w.db).deviceId) (n : ℕ) :
    ChainSettled ((joinExisting snapshot refused).cut n w) := by
  rcases n with _ | n
  · rw [Prog.cut_zero]
    exact hs
  · by_cases haccepts : Accepts snapshot refused = true
    · have hsettled := settled_graft haccepts (hchain haccepts)
      have hvault : localVaultId (w.withDb (graftIdentity snapshot w.db)).db =
          localVaultId snapshot := by
        simp only [Accepts, Bool.and_eq_true] at haccepts
        have hsame := congrArg IdentityTables.currentVaultId
          (identityOf_graftIdentity haccepts.1.2 w.db)
        exact hsame
      have hrest : (joinExisting snapshot refused).cut (n + 1) w =
          (registerInJoinedVault (localVaultId snapshot)).cut n
            (w.withDb (graftIdentity snapshot w.db)) := by
        change (if Accepts snapshot refused = true then _ else _ : StartupProg P Unit).cut n
          (if Accepts snapshot refused = true then _ else w) = _
        rw [if_pos haccepts, if_pos haccepts]
      rw [hrest]
      apply Prog.forall_cut_query_bind hsettled
      intro m
      split
      · rw [Prog.pure_eq_ret, Prog.cut_ret]
        exact hsettled
      · rw [cut_nonFatal, ← hvault]
        exact (ensureLocalDevice_settles hsettled).1 m
    · have hrest : (joinExisting snapshot refused).cut (n + 1) w = w := by
        change (if Accepts snapshot refused = true then _ else Prog.fail _ :
          StartupProg P Unit).cut n (if Accepts snapshot refused = true then _ else w) = w
        rw [if_neg haccepts, if_neg haccepts, Prog.cut_fail]
      rw [hrest]
      exact hs

/-! ## Runs of the daemon -/

/-- A machine: its database, whether the file is there, and whether the daemon runs. -/
structure StartupRun (P : Primitives) where
  world : StartupWorld P
  databaseExists : Bool
  running : Bool

/-- What happens to a machine; the daemon stops behind so many statements, or goes on where there
are not so many. -/
inductive StartupOp (P : Primitives) where
  | start (env : StartupEnv) (stop : ℕ)
  | unlock (passphrase : String) (stop : ℕ)
  | join (snapshot : VaultDb P) (refused : Bool) (stop : ℕ)

/-- The program came to its end. -/
def programEnded {α : Type} : StartupProg P α → Bool
  | .stmt _ _ => false
  | _ => true

/-- The program returned. -/
def startReturned {α : Type} : StartupProg P α → Bool
  | .ret _ => true
  | _ => false

namespace StartupOp

variable {s : StartupRun P}

/-- A start that returns leaves the daemon running, which only a stop ends. -/
def step : StartupOp P → StartupRun P → StartupRun P
  | start env stop, s =>
    let (rest, world) := (startup env !s.databaseExists).steps stop s.world
    { world, databaseExists := true, running := startReturned rest }
  | unlock passphrase stop, s =>
    if s.running then
      let (rest, world) := (onStartupVault (VaultKeyStore.unlock passphrase)).steps stop s.world
      { s with world, running := programEnded rest }
    else s
  | join snapshot refused stop, s =>
    if s.running then
      let (rest, world) := (joinExisting snapshot refused).steps stop s.world
      { s with world, running := programEnded rest }
    else s

/-- The user identifiers that a start draws are new. -/
def Legal : StartupOp P → StartupRun P → Prop
  | start env _, s => FreshIds env 0 s.world
  | _, _ => True

/-- No start is stopped between the inserts of the owner, or between the two updates that rename
the owner of the device; no unlock creates the vault; a joined vault has a chain. -/
def Guard : StartupOp P → StartupRun P → Prop
  | start env stop, s => StopsWell env (!s.databaseExists) stop s.world
  | unlock passphrase stop, s =>
    s.running = true → ¬ CreatesVault passphrase stop s.world.access.vault
  | join snapshot refused _, s =>
    s.running = true → Accepts snapshot refused = true →
      HasChain snapshot (identityOf s.world.db).deviceId

end StartupOp

namespace StartupRun

/-- The machine before its first start. -/
structure Blank (s : StartupRun P) : Prop where
  databaseExists : s.databaseExists = false
  running : s.running = false
  vaultConfig : s.world.db.vaultConfig = none
  vaultState : s.world.db.vaultState = none
  deviceIdentity : s.world.db.localDeviceIdentity = none
  users : s.world.db.users = []
  devices : s.world.db.devices = []
  members : s.world.db.vaultMembers = []
  policies : s.world.syncPolicies = []

/-- The next start of the machine returns with the chain established, and the start behind it
changes nothing. -/
def Reestablishes (s : StartupRun P) : Prop :=
  ∀ env, FreshIds env 0 s.world →
    ∃ t, (startup env !s.databaseExists).run s.world = (.ok (), t) ∧ Established env t

/-- The chain can be completed, and a database without a file has nothing in it. -/
structure Inv (s : StartupRun P) : Prop where
  settled : ChainSettled s.world
  missing : s.databaseExists = false →
    s.running = false ∧ s.world.db.vaultConfig = none ∧ s.world.db.users = []

theorem Blank.inv {s : StartupRun P} (h : s.Blank) : s.Inv := by
  have hids : (identityOf s.world.db).userIds = [] := List.map_eq_nil_iff.mpr h.users
  have hdevices : (identityOf s.world.db).devices = [] := List.map_eq_nil_iff.mpr h.devices
  have hmembers : (identityOf s.world.db).members = [] := h.members
  refine ⟨⟨⟨?_, ?_, ?_⟩, .inl hids⟩, fun _ => ⟨h.running, h.vaultConfig, h.users⟩⟩
  · rw [hids]
    exact List.nodup_nil
  · rw [hdevices]
    exact fun d hd => absurd hd List.not_mem_nil
  · rw [hmembers]
    exact fun m hm => absurd hm List.not_mem_nil

theorem Inv.missing' {s : StartupRun P} (h : s.Inv) (hmissing : (!s.databaseExists) = true) :
    s.world.db.vaultConfig = none ∧ s.world.db.users = [] :=
  (h.missing (by simpa using hmissing)).2

theorem Inv.reestablishes {s : StartupRun P} (h : s.Inv) : s.Reestablishes :=
  fun _ hfresh => (startup_settles h.settled h.missing' hfresh).2

theorem Inv.step {s : StartupRun P} (h : s.Inv) {op : StartupOp P} (hlegal : op.Legal s)
    (hguard : op.Guard s) : (op.step s).Inv := by
  have hexists : s.running = true → s.databaseExists = true := by
    intro hrunning
    by_contra hmissing
    have hstopped := (h.missing (by simpa using hmissing)).1
    rw [hrunning] at hstopped
    cases hstopped
  cases op with
  | start env stop =>
    refine ⟨?_, fun hmissing => by cases hmissing⟩
    exact (startup_settles h.settled h.missing' hlegal).1 stop hguard
  | unlock passphrase stop =>
    rw [StartupOp.step]
    split
    · rename_i hrunning
      refine ⟨?_, fun hmissing => ?_⟩
      · change ChainSettled ((onStartupVault (VaultKeyStore.unlock passphrase)).cut stop s.world)
        rw [cut_onStartupVault]
        change (identityOf _).Settled
        exact (unlock_keeps_identity (hguard hrunning)).symm ▸ h.settled
      · rw [hexists hrunning] at hmissing
        cases hmissing
    · exact h
  | join snapshot refused stop =>
    rw [StartupOp.step]
    split
    · rename_i hrunning
      refine ⟨joinExisting_settles h.settled (hguard hrunning) stop, fun hmissing => ?_⟩
      rw [hexists hrunning] at hmissing
      cases hmissing
    · exact h

end StartupRun

/-- Whatever starts, unlocks and joins came before, each possibly stopped between two statements:
where none of them meets the stops, the unlocks and the joins that break the chain, the next start
re-establishes it. -/
theorem startups_reestablish {s : StartupRun P} (hs : s.Blank) {ops : List (StartupOp P)}
    (hlegal : guarded StartupOp.step StartupOp.Legal ops s)
    (hguard : guarded StartupOp.step StartupOp.Guard ops s) :
    ∀ t ∈ states StartupOp.step ops s, t.Reestablishes := by
  intro t ht
  have hinv := inv_of_guarded StartupOp.step StartupOp.Legal StartupOp.Guard StartupRun.Inv
    (fun _ _ hinv hlegal hguard => hinv.step hlegal hguard) hs.inv hlegal hguard t ht
  exact hinv.reestablishes

/-! ## A machine -/

/-- A machine before its first start. -/
def machine : StartupRun symbolic where
  world := { access := { vault := { db := {}, inner := none, draws := 0 } } }
  databaseExists := false
  running := false

theorem machine_blank : machine.Blank := ⟨rfl, rfl, rfl, rfl, rfl, rfl, rfl, rfl, rfl⟩

/-- The identifiers of a start, told apart from those of other starts by a letter. -/
def drawnId (letter : Char) (i : ℕ) : String := String.ofList (letter :: List.replicate i letter)

def machineEnv (letter : Char) : StartupEnv where
  preferredDeviceName := some "desktop"
  defaultWatchDir := some "C:/OmniSync"
  newDeviceId := "device-1"
  newUserId := drawnId letter

theorem machineEnv_fresh (letter : Char) (hletter : letter.toLower ≠ 'o')
    {w : StartupWorld symbolic}
    (hunused : ∀ userId ∈ (identityOf w.db).userIds, userId.toList.head? ≠ some letter) :
    FreshIds (machineEnv letter) 0 w := by
  refine ⟨?_, ?_, ?_⟩
  · intro i j heq
    have hlength := congrArg (fun s : String => s.toList.length) heq
    simpa [machineEnv, drawnId] using hlength
  · intro i
    have hprefix : "owner-".toList = ['o', 'w', 'n', 'e', 'r', '-'] := by decide
    simp [isLegacyUserId, Backup.toAsciiLowercase, machineEnv, drawnId, hprefix,
      List.isPrefixOf, hletter.symm]
  · intro i _ hmem
    exact hunused _ hmem (by simp [machineEnv, drawnId])

/-- The machine starts for the first time, unlocks its vault, and is stopped in its next start. -/
def machineOps : List (StartupOp symbolic) :=
  [.start (machineEnv 'u') 100, .unlock "correct horse" 100, .start (machineEnv 'v') 3]

theorem sparesOwner_of_none {n k : ℕ} {db : VaultDb P} (hnone : renamable db = []) :
    SparesOwner n k db := by
  intro i userId hget
  rw [hnone] at hget
  cases hget

theorem machineOps_reestablish :
    (machineOps.foldl (fun s op => op.step s) machine).Reestablishes := by
  refine startups_reestablish machine_blank ?_ ?_ _
    (mem_states_last StartupOp.step machineOps machine)
  · refine ⟨machineEnv_fresh _ (by decide) (by decide +kernel), trivial,
      machineEnv_fresh _ (by decide) (by decide +kernel), trivial⟩
  · refine ⟨⟨fun _ => by decide +kernel, sparesOwner_of_none (by decide +kernel)⟩, fun _ => ?_,
      ⟨fun h => absurd h (by decide +kernel), sparesOwner_of_none (by decide +kernel)⟩, trivial⟩
    rintro ⟨hnone, -⟩
    revert hnone
    decide +kernel

/-- A first start that is stopped before it sets up the vault; the next one has its owner under the
name that stands for none, and the first unlock creates the vault. -/
def lateVaultOps : List (StartupOp symbolic) :=
  [.start (machineEnv 'u') 0, .start (machineEnv 'u') 100, .unlock "correct horse" 100]

/-- A first start that is stopped behind the first of the three inserts of the owner. -/
def halfOwnerOps : List (StartupOp symbolic) := [.start (machineEnv 'u') 15]

def startPanics (s : StartupRun P) (env : StartupEnv) : Bool :=
  match (startup env !s.databaseExists).run s.world with
  | (.error (.consistency _), _) => true
  | _ => false

theorem not_reestablishes_of_panics {s : StartupRun P} {env : StartupEnv}
    (hfresh : FreshIds env 0 s.world) (hpanics : startPanics s env = true) :
    ¬ s.Reestablishes := by
  intro h
  obtain ⟨t, hrun, -⟩ := h env hfresh
  rw [startPanics, hrun] at hpanics
  cases hpanics

/-- Behind each of the two runs the next start panics. -/
theorem startups_not_reestablished :
    (guarded StartupOp.step StartupOp.Legal lateVaultOps machine ∧
        ¬ ∀ t ∈ states StartupOp.step lateVaultOps machine, t.Reestablishes) ∧
      guarded StartupOp.step StartupOp.Legal halfOwnerOps machine ∧
        ¬ ∀ t ∈ states StartupOp.step halfOwnerOps machine, t.Reestablishes := by
  refine ⟨⟨⟨machineEnv_fresh _ (by decide) (by decide +kernel),
    machineEnv_fresh _ (by decide) (by decide +kernel), trivial, trivial⟩, ?_⟩,
    ⟨machineEnv_fresh _ (by decide) (by decide +kernel), trivial⟩, ?_⟩
  · intro h
    refine not_reestablishes_of_panics (machineEnv_fresh 'v' (by decide) ?_) ?_
      (h _ (mem_states_last StartupOp.step lateVaultOps machine))
    · decide +kernel
    · decide +kernel
  · intro h
    refine not_reestablishes_of_panics (machineEnv_fresh 'v' (by decide) ?_) ?_
      (h _ (mem_states_last StartupOp.step halfOwnerOps machine))
    · decide +kernel
    · decide +kernel

end OmniDrive
