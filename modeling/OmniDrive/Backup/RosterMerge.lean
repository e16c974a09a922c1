import OmniDrive.Backup.LatestPointer
import OmniDrive.Backup.RosterFetch
import OmniDrive.Crypto.SymbolicChunks
import OmniDrive.Library.GuardedRuns

/-!
# The merged roster

Fetches between uploads of any devices. Each fetch looks at the newest listed snapshot only. What
it applies is merged for good, so that the roster is the union of what was there and of every
snapshot applied, and the marker is the time of the last one.
-/

namespace OmniDrive

namespace Backup

open Tables GuardedRuns

variable {P : Primitives}

/-! ## The newest key -/

/-- The chosen key is one of the candidates, and no candidate has a larger time. -/
def NewestOf (keys : List String) : Option (ℤ × String) → Prop
  | none => ∀ key ∈ keys, parseCreatedAtFromSnapshotKey key = none
  | some (ts, key) => key ∈ keys ∧ parseCreatedAtFromSnapshotKey key = some ts ∧
    ∀ other ∈ keys, ∀ t, parseCreatedAtFromSnapshotKey other = some t → t ≤ ts

theorem newestOf_append {keys : List String} {best : Option (ℤ × String)}
    (h : NewestOf keys best) (key : String) :
    NewestOf (keys ++ [key]) (newerSnapshotKey best key) := by
  unfold newerSnapshotKey
  cases hkey : parseCreatedAtFromSnapshotKey key with
  | none =>
    cases best with
    | none =>
      intro other hother
      rcases List.mem_append.mp hother with hold | hnew
      · exact h other hold
      · obtain rfl := List.mem_singleton.mp hnew
        exact hkey
    | some best =>
      refine ⟨List.mem_append_left _ h.1, h.2.1, ?_⟩
      intro other hother t ht
      rcases List.mem_append.mp hother with hold | hnew
      · exact h.2.2 other hold t ht
      · obtain rfl := List.mem_singleton.mp hnew
        rw [hkey] at ht
        cases ht
  | some ts =>
    have hlast : ∀ {other : String} {t : ℤ}, other ∈ [key] →
        parseCreatedAtFromSnapshotKey other = some t → t = ts := by
      intro other t hother ht
      obtain rfl := List.mem_singleton.mp hother
      rw [hkey, Option.some.injEq] at ht
      exact ht.symm
    cases best with
    | none =>
      dsimp only
      rw [Option.all_none, if_pos rfl]
      refine ⟨by simp, hkey, ?_⟩
      intro other hother t ht
      rcases List.mem_append.mp hother with hold | hnew
      · rw [h other hold] at ht
        cases ht
      · exact (hlast hnew ht).le
    | some best =>
      dsimp only
      rw [Option.all_some]
      by_cases hnewer : best.1 < ts
      · rw [if_pos (by simpa using hnewer)]
        refine ⟨by simp, hkey, ?_⟩
        intro other hother t ht
        rcases List.mem_append.mp hother with hold | hnew
        · exact (h.2.2 other hold t ht).trans hnewer.le
        · exact (hlast hnew ht).le
      · rw [if_neg (by simpa using hnewer)]
        refine ⟨List.mem_append_left _ h.1, h.2.1, ?_⟩
        intro other hother t ht
        rcases List.mem_append.mp hother with hold | hnew
        · exact h.2.2 other hold t ht
        · rw [hlast hnew ht]
          exact not_lt.mp hnewer

/-- The newest key is the newest of all that are listed. -/
theorem collectNewestSnapshotKey_newest (manager : MetadataBackupProviderManager) :
    NewestOf manager.listedKeys (collectNewestSnapshotKey manager) := by
  unfold collectNewestSnapshotKey
  induction manager.listedKeys using List.reverseRecOn with
  | nil =>
    intro key hkey
    cases hkey
  | append_singleton keys key ih =>
    rw [List.foldl_append]
    exact newestOf_append ih key

/-! ## The marker -/

/-- A number is read back as it was written. -/
theorem parseI64_toString_int (n : ℤ) : parseI64 (toString n) = some n := by
  cases n with
  | ofNat n => exact parseI64_toString n
  | negSucc n =>
    have htext : (toString (Int.negSucc n)).toList = '-' :: Nat.toDigits 10 (n + 1) := by
      rw [show toString (Int.negSucc n) = "-" ++ toString (n + 1) from rfl]
      simp
    have hdigit : (Nat.toDigits 10 (n + 1)).all Char.isDigit = true := by
      rw [List.all_eq_true]
      intro c hc
      exact Nat.isDigit_of_mem_toDigits (by decide) (by decide) hc
    have hvalue : Nat.ofDigitChars 10 (Nat.toDigits 10 (n + 1)) 0 = n + 1 :=
      Nat.ofDigitChars_ten_toDigits
    have hne : Nat.toDigits 10 (n + 1) ≠ [] := Nat.toDigits_ne_nil
    rw [parseI64, htext]
    dsimp only
    rw [if_neg (by simp [hne, hdigit])]
    change some (-(Nat.ofDigitChars 10 (Nat.toDigits 10 (n + 1)) 0 : ℤ)) = _
    rw [hvalue]
    rfl

/-- The marker is read back as it was written. -/
theorem getLastAppliedRosterSnapshotAt_set (createdAt : ℤ) (db : MetadataDb P) :
    getLastAppliedRosterSnapshotAt (setLastAppliedRosterSnapshotAt createdAt db) =
      some createdAt := by
  unfold getLastAppliedRosterSnapshotAt setLastAppliedRosterSnapshotAt setSystemConfigValue
  dsimp only
  rw [Function.update_self, Option.bind_some, parseI64_toString_int]

/-! ## One merge -/

/-- The rows of a database are kept in a later one, and the keys of its roster are those and the
keys of the merged rows. -/
structure Extends (rows : RosterRows P) (db merged : VaultDb P) : Prop where
  devicesKept : db.devices <+: merged.devices
  membersKept : db.vaultMembers <+: merged.vaultMembers
  devices : ∀ id, id ∈ merged.devices.map (·.deviceId) ↔
    id ∈ db.devices.map (·.deviceId) ∨ id ∈ rows.devices.map (·.deviceId)
  members : ∀ k, k ∈ merged.vaultMembers.map memberKey ↔
    k ∈ db.vaultMembers.map memberKey ∨ k ∈ rows.vaultMembers.map memberKey

/-- Both merges of a roster have succeeded. -/
theorem mergeRoster_eq_ok {rows : RosterRows P} {db merged : VaultDb P}
    {summary : RosterMergeSummary} (h : mergeRoster rows db = .ok (summary, merged)) :
    mergeRows (·.deviceId) (deviceRefused db) rows.devices db.devices =
        some (merged.devices, summary.devicesAdded) ∧
      mergeRows memberKey (memberRefused db) rows.vaultMembers db.vaultMembers =
        some (merged.vaultMembers, summary.membersAdded) ∧
      merged = { db with devices := merged.devices, vaultMembers := merged.vaultMembers } := by
  unfold mergeRoster at h
  split at h
  · cases h
  · next devices devicesAdded hdevices =>
    split at h
    · cases h
    · next members membersAdded hmembers =>
      cases h
      exact ⟨hdevices, hmembers, rfl⟩

theorem mergeRoster_extends {rows : RosterRows P} {db merged : VaultDb P}
    {summary : RosterMergeSummary} (h : mergeRoster rows db = .ok (summary, merged)) :
    Extends rows db merged := by
  obtain ⟨hdevices, hmembers, -⟩ := mergeRoster_eq_ok h
  obtain ⟨addedDevices, hdevicesEq, -, -⟩ := mergeRows_eq_append hdevices
  obtain ⟨addedMembers, hmembersEq, -, -⟩ := mergeRows_eq_append hmembers
  exact
    { devicesKept := ⟨addedDevices, hdevicesEq.symm⟩
      membersKept := ⟨addedMembers, hmembersEq.symm⟩
      devices := fun _ => mem_keys_mergeRows_iff hdevices
      members := fun _ => mem_keys_mergeRows_iff hmembers }

/-- The rows of a snapshot are merged once. -/
theorem mergeRoster_again {rows : RosterRows P} {db merged : VaultDb P}
    {summary : RosterMergeSummary} (h : mergeRoster rows db = .ok (summary, merged)) :
    mergeRoster rows merged = .ok ({ devicesAdded := 0, membersAdded := 0 }, merged) := by
  have hextends := mergeRoster_extends h
  have hdevices : ∀ d ∈ rows.devices, d.deviceId ∈ merged.devices.map (·.deviceId) :=
    fun d hd => (hextends.devices _).mpr (.inr (List.mem_map_of_mem hd))
  have hmembers : ∀ m ∈ rows.vaultMembers, memberKey m ∈ merged.vaultMembers.map memberKey :=
    fun m hm => (hextends.members _).mpr (.inr (List.mem_map_of_mem hm))
  rw [mergeRoster, mergeRows_of_mem hdevices]
  dsimp only
  rw [mergeRows_of_mem hmembers]

/-- The users that the rows of a snapshot name. -/
def UsersKnown (rows : RosterRows P) (db : VaultDb P) : Prop :=
  (∀ d ∈ rows.devices, deviceRefused db d = false) ∧
    ∀ m ∈ rows.vaultMembers, memberRefused db m = false

theorem mergeRoster_of_usersKnown {rows : RosterRows P} {db : VaultDb P}
    (h : UsersKnown rows db) : ∃ summary merged, mergeRoster rows db = .ok (summary, merged) := by
  have hsomeDevices : (mergeRows DeviceRecord.deviceId (deviceRefused db) rows.devices
      db.devices).isSome := isSome_mergeRows h.1 db.devices
  have hsomeMembers : (mergeRows memberKey (memberRefused db) rows.vaultMembers
      db.vaultMembers).isSome := isSome_mergeRows h.2 db.vaultMembers
  obtain ⟨⟨devices, devicesAdded⟩, hdevices⟩ := Option.isSome_iff_exists.mp hsomeDevices
  obtain ⟨⟨members, membersAdded⟩, hmembers⟩ := Option.isSome_iff_exists.mp hsomeMembers
  refine ⟨{ devicesAdded, membersAdded }, { db with devices, vaultMembers := members }, ?_⟩
  rw [mergeRoster, hdevices]
  dsimp only
  rw [hmembers]

/-- Two rosters with the same devices and members. -/
def SameKeys (a b : VaultDb P) : Prop :=
  (∀ id, id ∈ a.devices.map (·.deviceId) ↔ id ∈ b.devices.map (·.deviceId)) ∧
    ∀ k, k ∈ a.vaultMembers.map memberKey ↔ k ∈ b.vaultMembers.map memberKey

/-- Two snapshots that are merged in either order give the same roster. -/
theorem mergeRoster_comm {first second : RosterRows P} {db left left' right right' : VaultDb P}
    {s₁ s₂ s₃ s₄ : RosterMergeSummary} (hleft : mergeRoster first db = .ok (s₁, left))
    (hleft' : mergeRoster second left = .ok (s₂, left'))
    (hright : mergeRoster second db = .ok (s₃, right))
    (hright' : mergeRoster first right = .ok (s₄, right')) : SameKeys left' right' := by
  have hl := mergeRoster_extends hleft
  have hl' := mergeRoster_extends hleft'
  have hr := mergeRoster_extends hright
  have hr' := mergeRoster_extends hright'
  constructor
  · intro id
    rw [hl'.devices, hl.devices, hr'.devices, hr.devices, or_assoc, or_assoc,
      or_comm (a := id ∈ first.devices.map (·.deviceId))]
  · intro k
    rw [hl'.members, hl.members, hr'.members, hr.members, or_assoc, or_assoc,
      or_comm (a := k ∈ first.vaultMembers.map memberKey)]

/-! ## Fetches between uploads -/

variable (C : ChunkPrimitives P) (S : SnapshotFiles) (T : RosterTables P)

/-- The newest listed snapshot, where it can be downloaded and decrypted. -/
def newestPlaintext (manager : MetadataBackupProviderManager) (masterKey : P.Key) :
    Option (ℤ × Bytes) := do
  let (createdAt, key) ← collectNewestSnapshotKey manager
  let encoded ← (downloadSnapshotBytes manager key).toOption
  let plaintext ← (decryptMetadataBackupWithMaster C encoded masterKey).toOption
  some (createdAt, plaintext)

/-- The rows that are read in a plaintext. -/
def rowsOf (plaintext : Bytes) : RosterRows P :=
  T.rows (writePlaintextSnapshotIfValid S plaintext).1

/-- The database, what the providers hold, and the times and rows of what was applied. -/
structure FetchState (P : Primitives) where
  db : MetadataDb P
  manager : MetadataBackupProviderManager := {}
  applied : List (ℤ × RosterRows P) := []

/-- The providers change by uploads, or however else. -/
inductive FetchOp (P : Primitives) where
  | providers (manager : MetadataBackupProviderManager)
  | fetch (masterKey : P.Key)

namespace FetchState

/-- What a fetch returns and leaves. -/
def fetched (masterKey : P.Key) (s : FetchState P) :
    Except DisasterRecoveryError (Option RosterMergeSummary) × MetadataDb P :=
  runMetadataFetchNow C S T s.manager masterKey s.db

/-- What a fetch has applied, if it has. -/
def newlyApplied (masterKey : P.Key) (s : FetchState P) : List (ℤ × RosterRows P) :=
  match (s.fetched C S T masterKey).1 with
  | .ok (some _) => (newestPlaintext C s.manager masterKey).toList.map fun p =>
    (p.1, rowsOf S T p.2)
  | _ => []

end FetchState

def FetchOp.step (op : FetchOp P) (s : FetchState P) : FetchState P :=
  match op with
  | .providers manager => { s with manager }
  | .fetch masterKey =>
    { s with
      db := (s.fetched C S T masterKey).2
      applied := s.applied ++ s.newlyApplied C S T masterKey }

namespace FetchState

/-- The time of the last snapshot that was applied. -/
def marker (s : FetchState P) : Option ℤ := getLastAppliedRosterSnapshotAt s.db

/-- The plaintext is a snapshot of the local vault. -/
def OfVault (plaintext : Bytes) (s : FetchState P) : Prop :=
  ∃ file state, writePlaintextSnapshotIfValid S plaintext = (file, .ok true) ∧
    s.db.vault.vaultState = some state ∧ T.vaultId file = .ok (some state.vaultId)

/-- What one fetch does: it applies the newest listed snapshot, which is later than the last one,
or nothing. -/
structure FetchSound (masterKey : P.Key) (s : FetchState P) : Prop where
  newest : NewestOf s.manager.listedKeys (collectNewestSnapshotKey s.manager)
  applied : ∀ summary, (s.fetched C S T masterKey).1 = .ok (some summary) →
    ∃ createdAt plaintext, newestPlaintext C s.manager masterKey = some (createdAt, plaintext) ∧
      s.marker.getD i64Min < createdAt ∧
      Extends (rowsOf S T plaintext) s.db.vault (s.fetched C S T masterKey).2.vault ∧
      getLastAppliedRosterSnapshotAt (s.fetched C S T masterKey).2 = some createdAt
  skipped : (∀ summary, (s.fetched C S T masterKey).1 ≠ .ok (some summary)) →
    (s.fetched C S T masterKey).2 = s.db
  unreadable : newestPlaintext C s.manager masterKey = none →
    (s.fetched C S T masterKey).2 = s.db
  applies : ∀ createdAt plaintext,
    newestPlaintext C s.manager masterKey = some (createdAt, plaintext) →
      s.marker.getD i64Min < createdAt → s.OfVault S T plaintext →
        UsersKnown (rowsOf S T plaintext) s.db.vault →
          ∃ summary, (s.fetched C S T masterKey).1 = .ok (some summary)

/-- The roster is the union of what was there at the start and of every snapshot applied since, and
the marker is the time of the last one. -/
structure Merged (start s : FetchState P) : Prop where
  devicesKept : start.db.vault.devices <+: s.db.vault.devices
  membersKept : start.db.vault.vaultMembers <+: s.db.vault.vaultMembers
  devices : ∀ id, id ∈ s.db.vault.devices.map (·.deviceId) ↔
    id ∈ start.db.vault.devices.map (·.deviceId) ∨
      ∃ a ∈ s.applied, id ∈ a.2.devices.map (·.deviceId)
  members : ∀ k, k ∈ s.db.vault.vaultMembers.map memberKey ↔
    k ∈ start.db.vault.vaultMembers.map memberKey ∨
      ∃ a ∈ s.applied, k ∈ a.2.vaultMembers.map memberKey
  marker : s.marker = (s.applied.getLast?.map Prod.fst).or start.marker
  times : s.applied.Pairwise fun a b => a.1 < b.1
  bound : ∀ a ∈ s.applied, ∀ t, s.marker = some t → a.1 ≤ t

end FetchState

variable {C S T}

/-- A plaintext is merged where it is a snapshot of the vault whose rows can be merged. -/
theorem applySnapshot_eq_some_iff {plaintext : Bytes} {vaultId : String} {db : VaultDb P}
    {merged : RosterMergeSummary × VaultDb P} :
    applySnapshot S T plaintext vaultId db = some merged ↔
      ∃ file, writePlaintextSnapshotIfValid S plaintext = (file, .ok true) ∧
        T.vaultId file = .ok (some vaultId) ∧
        mergeRoster (rowsOf S T plaintext) db = .ok merged := by
  unfold applySnapshot rowsOf
  constructor
  · intro h
    split at h
    · cases h
    · cases h
    · next file hwrite =>
      split at h
      · cases h
      · next merged' hgraft =>
        cases h
        rw [graftRosterAdditive] at hgraft
        split at hgraft
        · cases hgraft
        · cases hgraft
        · next found hvault =>
          split at hgraft
          · cases hgraft
          · next hsame =>
            rw [not_not.mp hsame] at hvault
            refine ⟨file, hwrite, hvault, ?_⟩
            rw [hwrite]
            exact hgraft
  · rintro ⟨file, hwrite, hvault, hmerge⟩
    rw [hwrite] at hmerge ⊢
    have hgraft : graftRosterAdditive T file vaultId db = .ok merged := by
      rw [graftRosterAdditive, hvault]
      dsimp only
      rw [if_neg (not_not.mpr rfl)]
      exact hmerge
    dsimp only
    rw [hgraft]

/-- A fetch applies the newest snapshot, or leaves the database. -/
theorem fetched_cases (masterKey : P.Key) (s : FetchState P) :
    ((∀ summary, (s.fetched C S T masterKey).1 ≠ .ok (some summary)) ∧
        (s.fetched C S T masterKey).2 = s.db) ∨
      ∃ createdAt plaintext summary vault,
        newestPlaintext C s.manager masterKey = some (createdAt, plaintext) ∧
        s.marker.getD i64Min < createdAt ∧
        mergeRoster (rowsOf S T plaintext) s.db.vault = .ok (summary, vault) ∧
        s.fetched C S T masterKey = (.ok (some summary),
          setLastAppliedRosterSnapshotAt createdAt { s.db with vault }) := by
  rw [FetchState.fetched, runMetadataFetchNow]
  cases hstate : s.db.vault.vaultState with
  | none => exact .inl ⟨by simp, rfl⟩
  | some state =>
    cases hnewest : collectNewestSnapshotKey s.manager with
    | none => exact .inl ⟨by simp, rfl⟩
    | some newest =>
      obtain ⟨createdAt, key⟩ := newest
      dsimp only
      by_cases hold : createdAt ≤ (getLastAppliedRosterSnapshotAt s.db).getD i64Min
      · rw [if_pos hold]
        exact .inl ⟨by simp, rfl⟩
      · rw [if_neg hold]
        cases hdownload : downloadSnapshotBytes s.manager key with
        | error err => exact .inl ⟨by simp, rfl⟩
        | ok encoded =>
          cases hdecrypt : decryptMetadataBackupWithMaster C encoded masterKey with
          | error err => exact .inl ⟨by simp [hdecrypt], by simp [hdecrypt]⟩
          | ok plaintext =>
            cases happly : applySnapshot S T plaintext state.vaultId s.db.vault with
            | none => exact .inl ⟨by simp [hdecrypt, happly], by simp [hdecrypt, happly]⟩
            | some merged =>
              obtain ⟨file, -, -, hmerge⟩ := applySnapshot_eq_some_iff.mp happly
              refine .inr ⟨createdAt, plaintext, merged.1, merged.2, ?_, not_le.mp hold, hmerge,
                ?_⟩
              · simp [newestPlaintext, hnewest, hdownload, hdecrypt, Except.toOption]
              · simp [hdecrypt, happly]

/-- The newest snapshot is applied where it is of the vault and its users are known. -/
theorem fetched_applies {masterKey : P.Key} {s : FetchState P} {createdAt : ℤ}
    {plaintext : Bytes} (hnewest : newestPlaintext C s.manager masterKey =
      some (createdAt, plaintext)) (hlater : s.marker.getD i64Min < createdAt)
    (hvault : s.OfVault S T plaintext) (husers : UsersKnown (rowsOf S T plaintext) s.db.vault) :
    ∃ summary, (s.fetched C S T masterKey).1 = .ok (some summary) := by
  obtain ⟨file, state, hwrite, hstate, hfile⟩ := hvault
  obtain ⟨summary, vault, hmerge⟩ := mergeRoster_of_usersKnown husers
  have happly : applySnapshot S T plaintext state.vaultId s.db.vault = some (summary, vault) :=
    applySnapshot_eq_some_iff.mpr ⟨file, hwrite, hfile, hmerge⟩
  unfold newestPlaintext at hnewest
  cases hkey : collectNewestSnapshotKey s.manager with
  | none => simp [hkey] at hnewest
  | some newest =>
    obtain ⟨t, key⟩ := newest
    cases hdownload : downloadSnapshotBytes s.manager key with
    | error err => simp [hkey, hdownload, Except.toOption] at hnewest
    | ok encoded =>
      cases hdecrypt : decryptMetadataBackupWithMaster C encoded masterKey with
      | error err => simp [hkey, hdownload, hdecrypt, Except.toOption] at hnewest
      | ok opened =>
        obtain ⟨rfl, rfl⟩ : t = createdAt ∧ opened = plaintext := by
          simpa [hkey, hdownload, hdecrypt, Except.toOption] using hnewest
        have hnew : ¬ t ≤ (getLastAppliedRosterSnapshotAt s.db).getD i64Min := not_le.mpr hlater
        refine ⟨summary, ?_⟩
        rw [FetchState.fetched, runMetadataFetchNow, hstate]
        dsimp only
        rw [hkey]
        dsimp only
        rw [if_neg hnew, hdownload]
        dsimp only
        rw [hdecrypt]
        dsimp only
        rw [happly]

theorem fetchSound (masterKey : P.Key) (s : FetchState P) : s.FetchSound C S T masterKey := by
  constructor
  case newest => exact collectNewestSnapshotKey_newest s.manager
  case applied =>
    intro summary hresult
    obtain ⟨hnone, -⟩ | ⟨createdAt, plaintext, added, vault, hnewest, hlater, hmerge, hrun⟩ :=
      fetched_cases masterKey s
    · exact absurd hresult (hnone summary)
    · rw [hrun]
      exact ⟨createdAt, plaintext, hnewest, hlater, mergeRoster_extends hmerge,
        getLastAppliedRosterSnapshotAt_set createdAt _⟩
  case skipped =>
    intro hnone
    obtain ⟨-, hdb⟩ | ⟨createdAt, plaintext, added, vault, -, -, -, hrun⟩ :=
      fetched_cases masterKey s
    · exact hdb
    · rw [hrun] at hnone
      exact absurd rfl (hnone added)
  case unreadable =>
    intro hunreadable
    obtain ⟨-, hdb⟩ | ⟨createdAt, plaintext, added, vault, hnewest, -⟩ :=
      fetched_cases masterKey s
    · exact hdb
    · rw [hunreadable] at hnewest
      cases hnewest
  case applies => exact fun _ _ => fetched_applies

/-- Where something has been applied, the marker is set. -/
theorem FetchState.Merged.marker_of_applied {start s : FetchState P} (hs : start.Merged s)
    {a : ℤ × RosterRows P} (ha : a ∈ s.applied) : ∃ m, s.marker = some m := by
  rw [hs.marker, List.getLast?_eq_some_getLast (List.ne_nil_of_mem ha)]
  exact ⟨_, rfl⟩

/-- A later snapshot that is merged keeps the union. -/
theorem FetchState.Merged.apply {start s t : FetchState P} (hs : start.Merged s) {createdAt : ℤ}
    (rows : RosterRows P) (hlater : s.marker.getD i64Min < createdAt)
    (hextends : Extends rows s.db.vault t.db.vault) (hmarker : t.marker = some createdAt)
    (happlied : t.applied = s.applied ++ [(createdAt, rows)]) : start.Merged t := by
  have hbefore : ∀ a ∈ s.applied, a.1 < createdAt := by
    intro a ha
    obtain ⟨m, hm⟩ := hs.marker_of_applied ha
    have hle := hs.bound a ha m hm
    rw [hm, Option.getD_some] at hlater
    exact hle.trans_lt hlater
  constructor
  case devicesKept => exact hs.devicesKept.trans hextends.devicesKept
  case membersKept => exact hs.membersKept.trans hextends.membersKept
  case devices =>
    intro id
    rw [hextends.devices, hs.devices, happlied, or_assoc]
    simp only [List.mem_append, List.mem_singleton, or_and_right, exists_or, exists_eq_left]
  case members =>
    intro k
    rw [hextends.members, hs.members, happlied, or_assoc]
    simp only [List.mem_append, List.mem_singleton, or_and_right, exists_or, exists_eq_left]
  case marker =>
    rw [hmarker, happlied, List.getLast?_concat]
    rfl
  case times =>
    rw [happlied, List.pairwise_append]
    refine ⟨hs.times, List.pairwise_singleton _ _, ?_⟩
    intro a ha b hb
    obtain rfl := List.mem_singleton.mp hb
    exact hbefore a ha
  case bound =>
    intro a ha t' ht
    rw [hmarker, Option.some.injEq] at ht
    rw [happlied] at ha
    rcases List.mem_append.mp ha with hold | hnew
    · exact ht ▸ (hbefore a hold).le
    · rw [List.mem_singleton.mp hnew, ht]

/-- One operation keeps the union. -/
theorem merged_step {start s : FetchState P} (hs : start.Merged s) (op : FetchOp P) :
    start.Merged (op.step C S T s) := by
  cases op with
  | providers manager =>
    exact
      { devicesKept := hs.devicesKept
        membersKept := hs.membersKept
        devices := hs.devices
        members := hs.members
        marker := hs.marker
        times := hs.times
        bound := hs.bound }
  | fetch masterKey =>
    obtain ⟨hnone, hdb⟩ | ⟨createdAt, plaintext, summary, vault, hnewest, hlater, hmerge, hrun⟩ :=
      fetched_cases (C := C) (S := S) (T := T) masterKey s
    · have happlied : s.newlyApplied C S T masterKey = [] := by
        unfold FetchState.newlyApplied
        split
        · next summary hresult => exact absurd hresult (hnone summary)
        · rfl
      have hsame : (FetchOp.fetch masterKey).step C S T s = s := by
        simp only [FetchOp.step, hdb, happlied, List.append_nil]
      rw [hsame]
      exact hs
    · apply hs.apply (rowsOf S T plaintext) hlater
      · simp only [FetchOp.step, hrun]
        exact mergeRoster_extends hmerge
      · simp only [FetchOp.step, hrun, FetchState.marker]
        exact getLastAppliedRosterSnapshotAt_set createdAt _
      · simp only [FetchOp.step, FetchState.newlyApplied, hrun, hnewest, Option.toList_some,
          List.map_cons, List.map_nil]

/-- In every state of a run of fetches between uploads, the roster is the union of the snapshots
applied, and every fetch is sound. Merging again adds nothing, and the order does not matter. -/
theorem roster_merges (C : ChunkPrimitives P) (S : SnapshotFiles) (T : RosterTables P) :
    (∀ (start : FetchState P) (ops : List (FetchOp P)), start.applied = [] →
      ∀ s ∈ states (FetchOp.step C S T) ops start,
        start.Merged s ∧ ∀ masterKey, s.FetchSound C S T masterKey) ∧
    (∀ (rows : RosterRows P) (db merged : VaultDb P) (summary : RosterMergeSummary),
      mergeRoster rows db = .ok (summary, merged) →
        mergeRoster rows merged = .ok ({ devicesAdded := 0, membersAdded := 0 }, merged)) ∧
    ∀ (first second : RosterRows P) (db left left' right right' : VaultDb P)
      (s₁ s₂ s₃ s₄ : RosterMergeSummary), mergeRoster first db = .ok (s₁, left) →
        mergeRoster second left = .ok (s₂, left') → mergeRoster second db = .ok (s₃, right) →
          mergeRoster first right = .ok (s₄, right') → SameKeys left' right' := by
  refine ⟨?_, fun _ _ _ _ => mergeRoster_again, fun _ _ _ _ _ _ _ _ _ _ _ => mergeRoster_comm⟩
  intro start ops hstart
  have hmerged : start.Merged start := by
    constructor <;> simp [hstart]
  have hrun := inv_of_guarded (FetchOp.step C S T) (fun _ _ => True) (fun _ _ => True)
    start.Merged (fun op _ hs _ _ => merged_step hs op) hmerged
    (guarded_of_forall _ (fun _ _ => trivial) ops start)
    (guarded_of_forall _ (fun _ _ => trivial) ops start)
  exact fun s hs => ⟨hrun s hs, fun masterKey => fetchSound masterKey s⟩

/-! ## A laptop and its peers -/

def enrolled (deviceId userId : String) : DeviceRecord symbolic :=
  { deviceId, userId, publicKey := .exact (.random 7) }

/-- Files of one byte: a snapshot of the laptop, one of the phone, and one of a new user. -/
def rosterTables : RosterTables symbolic where
  vaultId _ := .ok (some "vault")
  devices file := .ok <| match file with
    | [1] => [enrolled "laptop" "ada"]
    | [2] => [enrolled "laptop" "ada", enrolled "phone" "ada"]
    | _ => [enrolled "laptop" "ada", enrolled "tablet" "bob"]
  vaultMembers _ := .ok [{ userId := "ada", vaultId := "vault" }]

/-- Every file is a database with a vault. -/
def rosterFiles : SnapshotFiles where
  stagingPath := "staging.db"
  initDb := .ok
  hasVaultParams _ := .ok true
  graftRestoredMetadataSnapshot _ := .error "unused"

def rosterKdf : RootKdfParams :=
  { parameterSetVersion := 1, salt := [], memoryCostKib := 1, timeCost := 1, lanes := 1 }

def sealedSnapshot (file : Bytes) : Except DisasterRecoveryError Bytes :=
  encryptMetadataSnapshot symbolicChunks (.random 1) rosterKdf 0 file

/-- An object under a key that the master key does not give. -/
def foreignSnapshot (file : Bytes) : Except DisasterRecoveryError Bytes :=
  let nonce := symbolicChunks.randomNonce 0
  let (ciphertext, tag) := symbolicChunks.gcmEncrypt (.random 2) nonce [] file
  .ok (MetadataBackupParsed.encode { kdf := rosterKdf, nonce, ciphertext, tag })

def snapshotKey (createdAt : ℕ) : String :=
  snapshotPrefix ++ toString createdAt ++ ".db.enc"

/-- One bucket with some snapshots. -/
def bucket (objects : List (ℕ × Except DisasterRecoveryError Bytes)) :
    MetadataBackupProviderManager where
  downloadProviders :=
    [{ providerName := "cloudflare-r2"
       listing := .ok (objects.map (snapshotKey ·.1))
       object := fun key => ((objects.find? (snapshotKey ·.1 = key)).map Prod.snd).getD
         (.error (.downloadFailed ["NoSuchKey"])) }]

/-- The laptop of a vault of one user. -/
def laptopStart : FetchState symbolic where
  db :=
    { vault :=
        { vaultState := some
            { masterKeySalt := []
              argon2Params :=
                { parameterSetVersion := 1, memoryCostKib := 1, timeCost := 1, lanes := 1 }
              vaultId := "vault" }
          users := [{ userId := "ada" }]
          devices := [enrolled "laptop" "ada"] } }

def afterFetches (ops : List (FetchOp symbolic)) : FetchState symbolic :=
  ops.foldl (fun s op => op.step symbolicChunks rosterFiles rosterTables s) laptopStart

/-- The laptop fetches after its own upload, and again after that of the phone. -/
def inTurn : List (FetchOp symbolic) :=
  [.providers (bucket [(2, sealedSnapshot [1])]), .fetch (.random 1),
    .providers (bucket [(2, sealedSnapshot [1]), (3, sealedSnapshot [2])]), .fetch (.random 1)]

/-- Both snapshots are applied, and to merge one of them again adds nothing. -/
theorem inTurn_roster_merges : laptopStart.applied = [] ∧
    (afterFetches inTurn).applied.map Prod.fst = [2, 3] ∧
    laptopStart.Merged (afterFetches inTurn) ∧
    ∃ summary merged,
      mergeRoster (rowsOf rosterFiles rosterTables [2]) laptopStart.db.vault =
          .ok (summary, merged) ∧
        mergeRoster (rowsOf rosterFiles rosterTables [2]) merged =
          .ok ({ devicesAdded := 0, membersAdded := 0 }, merged) ∧ SameKeys merged merged := by
  obtain ⟨hrun, hagain, horder⟩ := roster_merges symbolicChunks rosterFiles rosterTables
  have hmerge : ∃ summary merged, mergeRoster (rowsOf rosterFiles rosterTables [2])
      laptopStart.db.vault = .ok (summary, merged) := ⟨_, _, rfl⟩
  obtain ⟨summary, merged, hmerge⟩ := hmerge
  have htwice := hagain _ _ _ _ hmerge
  exact ⟨rfl, by decide +kernel, (hrun laptopStart inTurn rfl _ (mem_states_last _ _ _)).1,
    summary, merged, hmerge, htwice,
    horder _ _ _ _ _ _ _ _ _ _ _ hmerge htwice hmerge htwice⟩

/-- A fetch has nothing to do, and a device of a listed snapshot that the key opens is missing. -/
structure LeavesOut (masterKey : SymbolicKey) (deviceId : String) (s : FetchState symbolic) :
    Prop where
  idle : (s.fetched symbolicChunks rosterFiles rosterTables masterKey).1 = .ok none
  listed : ∃ key ∈ s.manager.listedKeys, ∃ encoded plaintext,
    downloadSnapshotBytes s.manager key = .ok encoded ∧
      decryptMetadataBackupWithMaster symbolicChunks encoded masterKey = .ok plaintext ∧
      deviceId ∈ (rowsOf rosterFiles rosterTables plaintext).devices.map (·.deviceId)
  missing : deviceId ∉ s.db.vault.devices.map (·.deviceId)

/-- The snapshot of the laptop is the newest one, though that of the phone was uploaded later. -/
def skewed : List (FetchOp symbolic) :=
  [.providers (bucket [(3, sealedSnapshot [1]), (2, sealedSnapshot [2])]), .fetch (.random 1)]

/-- The newest snapshot is under another master key. -/
def undecryptable : List (FetchOp symbolic) :=
  [.providers (bucket [(3, foreignSnapshot [1]), (2, sealedSnapshot [2])])]

/-- The user of the tablet is not known yet. -/
def newUser : List (FetchOp symbolic) :=
  [.providers (bucket [(2, sealedSnapshot [3])])]

/-- In each of the three a fetch leaves a device out. -/
theorem roster_leaves_out : LeavesOut (.random 1) "phone" (afterFetches skewed) ∧
    LeavesOut (.random 1) "phone" (afterFetches undecryptable) ∧
    LeavesOut (.random 1) "tablet" (afterFetches newUser) := by
  refine ⟨?_, ?_, ?_⟩
  all_goals
    constructor
    · decide +kernel
    · refine ⟨snapshotKey 2, by decide +kernel, _, _, rfl, rfl, by decide +kernel⟩
    · decide +kernel

end Backup

end OmniDrive
