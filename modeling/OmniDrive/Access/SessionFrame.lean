import OmniDrive.Access.Handlers
import OmniDrive.Vault.UnlockOutcome

/-!
# What the handlers leave of the sessions

Most statements of the handlers work on the tables of the key store or on the invite codes. A
property of the sessions and the clock alone is kept by all of them, so the handlers that touch
no session keep it as a whole.
-/

namespace OmniDrive

open StatementProgram Tables

variable {P : Primitives} {α β ε : Type}

/-! ## The key store does not turn the clock -/

section Clock

theorem fixesNow_select (f : VaultDb P → α) : (selectDb f).Fixes (VaultWorld.now (P := P)) :=
  Prog.Fixes.query _

theorem fixesNow_write (f : VaultDb P → VaultDb P) : (writeDb f).Fixes VaultWorld.now :=
  Prog.Fixes.exec fun _ => rfl

theorem fixesNow_updateDevice (deviceId : String) (f : DeviceRecord P → DeviceRecord P) :
    (Db.updateDevice deviceId f).Fixes VaultWorld.now := fixesNow_write _

theorem fixesNow_updateUser (userId : String) (f : UserRecord P → UserRecord P) :
    (Db.updateUser userId f).Fixes VaultWorld.now := fixesNow_write _

theorem fixesNow_draw (tape : ℕ → α) : (draw tape : VaultProg P α).Fixes VaultWorld.now :=
  Prog.Fixes.execReturning _ fun _ => rfl

theorem fixesNow_writeSlot (keys : Option (UnlockedVaultKeys P)) :
    (writeSlot keys).Fixes VaultWorld.now := Prog.Fixes.exec fun _ => rfl

/-- The device loop of a revocation rotation writes device rows only. -/
theorem fixesNow_rewrapDevices (ownerPrivate newVaultKey : P.Key) (newGeneration : ℤ)
    (devices : List (DeviceRecord P)) :
    (VaultKeyStore.rewrapDevices ownerPrivate newVaultKey newGeneration devices).Fixes
      VaultWorld.now := by
  induction devices with
  | nil => trivial
  | cons dev rest ih =>
    unfold VaultKeyStore.rewrapDevices
    have hrest : ∀ done : ℕ, (VaultKeyStore.rewrapDevices ownerPrivate newVaultKey newGeneration
        rest >>= fun tail => (pure (done + tail) : VaultProg P ℕ)).Fixes VaultWorld.now :=
      fun done => ih.bind fun _ => trivial
    split
    · split
      · exact hrest 0
      · split
        · apply Prog.Fixes.bind (fixesNow_updateDevice _ _)
          intro _
          exact hrest 1
        · exact hrest 0
    · exact hrest 0

theorem fixesNow_rewrapMembers (ownerPrivate newVaultKey : P.Key) (newGeneration : ℤ)
    (members : List VaultMemberRecord) :
    (VaultKeyStore.rewrapMembers ownerPrivate newVaultKey newGeneration members).Fixes
      VaultWorld.now := by
  induction members with
  | nil => trivial
  | cons member rest ih =>
    unfold VaultKeyStore.rewrapMembers
    apply (fixesNow_select _).bind
    intro devices
    apply (fixesNow_rewrapDevices _ _ _ _).bind
    intro done
    exact ih.bind fun _ => trivial

theorem fixesNow_ownerPrivateKey (masterKey : P.Key) :
    (VaultKeyStore.ownerPrivateKey masterKey).Fixes VaultWorld.now := by
  apply Prog.Fixes.mapError
  unfold Identity.getDevicePrivateKey
  apply Prog.Fixes.bind ((Prog.Fixes.query _).bind fun _ => Prog.Fixes.ofOption _ _)
  intro device
  apply (Prog.Fixes.ofOption _ _).bind
  intro blob
  exact Prog.Fixes.ofExcept _

/-- A revocation rotation does not turn the clock. -/
theorem fixesNow_rotateForRevocation :
    (VaultKeyStore.rotateForRevocation (P := P)).Fixes VaultWorld.now := by
  unfold VaultKeyStore.rotateForRevocation
  apply VaultKeyStore.fixes_requireEnvelopeKey.bind
  intro oldEnvelopeKey
  apply VaultKeyStore.fixes_requireMasterKey.bind
  intro masterKey
  have hgeneration : (VaultKeyStore.currentVaultKeyGeneration (P := P)).Fixes VaultWorld.now :=
    (fixesNow_select _).bind fun _ => trivial
  apply hgeneration.bind
  intro oldGeneration
  apply (fixesNow_draw _).bind
  intro newVaultKey
  apply (fixesNow_select _).bind
  intro vaultParams
  apply (fixesNow_write _).bind
  intro _
  apply (fixesNow_ownerPrivateKey masterKey).bind
  intro ownerPrivate
  apply (Prog.Fixes.ofOption _ _).bind
  intro vaultId
  apply (fixesNow_select _).bind
  intro members
  apply (fixesNow_rewrapMembers _ _ _ _).bind
  intro devicesRewrapped
  have hqueue : ∀ generation, (Db.enqueueDeksForRewrap (P := P) generation).Fixes
      VaultWorld.now := fun _ => Prog.Fixes.execReturning _ fun _ => rfl
  apply (hqueue _).bind
  intro deksEnqueued
  apply VaultKeyStore.fixes_requireKey.bind
  intro vaultKey
  apply (fixesNow_writeSlot _).bind
  intro _
  trivial

theorem fixesNow_sealRefreshToken (userId : String) (token : Option String) :
    (Api.sealRefreshToken (P := P) userId token).Fixes VaultWorld.now := by
  cases token with
  | none => trivial
  | some token =>
    unfold Api.sealRefreshToken
    have hseal : (VaultKeyStore.sealOauthToken (P := P) userId token).Fixes VaultWorld.now := by
      apply VaultKeyStore.fixes_requireEnvelopeKey.bind
      intro evk
      exact (fixesNow_draw _).bind fun _ => trivial
    apply hseal.bind
    intro cipher
    apply (fixesNow_updateUser _ _).bind
    intro _
    exact fixesNow_updateUser _ _

end Clock

/-! ## Properties of the sessions and the clock -/

section Frame

variable {I : AccessWorld P → Prop}
variable (hvault : ∀ (vault : VaultWorld P) w, vault.now = w.vault.now → I w → I { w with vault })
variable (hcodes : ∀ (codes : List InviteCodeRecord) w, I w → I { w with inviteCodes := codes })

theorem keeps_query {p : AccessProg P α} (hp : p.Keeps I) : (query p).Keeps I := hp.mapError

theorem keeps_logged {p : AccessProg P α} (hp : p.Keeps I) : (logged p).Keeps I :=
  hp.attempt.bind fun _ => trivial

theorem keeps_faulty (fault : Bool) {p : AccessProg P α} (hp : p.Keeps I) :
    (faulty fault p).Keeps I := by
  cases fault with
  | false => exact hp
  | true => trivial

theorem keeps_insertRow {refused : AccessWorld P → Option DbError}
    {upd : AccessWorld P → AccessWorld P} (h : ∀ w, I w → I (upd w)) :
    (insertRow refused upd).Keeps I := by
  apply Prog.Keeps.bind (Prog.Keeps.execReturning _ ?_)
  · intro verdict
    cases verdict <;> trivial
  · intro w hw
    by_cases hok : refused w = none
    · rw [if_pos hok]
      exact h w hw
    · rw [if_neg hok]
      exact hw

include hvault in
theorem keeps_withDb (db : VaultDb P) {w : AccessWorld P} (hw : I w) : I (w.withDb db) :=
  hvault _ w rfl hw

/-! ### The gates read only -/

theorem keeps_authenticateSession (headers : HeaderMap) :
    (Acl.authenticateSession headers).Keeps I := by
  unfold Acl.authenticateSession
  apply (Prog.Keeps.ofOption _ _).bind
  intro auth
  apply (keeps_query (Prog.Keeps.query _)).bind
  intro session
  exact Prog.Keeps.ofOption _ _

theorem keeps_requireRole (headers : HeaderMap) (minRole : Role) :
    (Acl.requireRole headers minRole).Keeps I := by
  unfold Acl.requireRole
  apply (keeps_authenticateSession headers).bind
  intro session
  apply (Prog.Keeps.query _).bind
  intro vaultId
  apply (Prog.Keeps.ofOption _ _).bind
  intro vaultId
  apply (keeps_query (Prog.Keeps.query _)).bind
  intro member
  apply (Prog.Keeps.ofOption _ _).bind
  intro member
  apply (Prog.Keeps.ofExcept _).bind
  intro role
  trivial

theorem keeps_isVaultMember (userId : String) : (Acl.isVaultMember userId).Keeps I := by
  unfold Acl.isVaultMember
  apply (Prog.Keeps.query _).bind
  intro vaultId
  cases vaultId with
  | none => trivial
  | some vaultId => exact (keeps_query (Prog.Keeps.query _)).bind fun _ => trivial

theorem keeps_requireSession (headers : HeaderMap) : (Acl.requireSession headers).Keeps I := by
  unfold Acl.requireSession Acl.ensureVaultMember
  apply (keeps_authenticateSession headers).bind
  intro session
  apply Prog.Keeps.bind
  · apply (keeps_isVaultMember _).bind
    intro member
    cases member <;> trivial
  · intro _
    trivial

/-! ### Handlers that touch no session -/

include hcodes in
theorem keeps_postVaultInvite (headers : HeaderMap) (req : Api.InviteRequest) (code : String) :
    (Api.postVaultInvite headers req code).Keeps I := by
  unfold Api.postVaultInvite
  apply (keeps_requireRole headers .admin).bind
  intro caller
  apply (Prog.Keeps.query _).bind
  intro now
  apply Prog.Keeps.bind (keeps_query (keeps_insertRow fun w hw => hcodes _ w hw))
  intro _
  trivial

include hvault hcodes in
theorem keeps_postVaultJoin (faults : Api.JoinFaults) (req : Api.JoinRequest P) :
    (Api.postVaultJoin faults req).Keeps I := by
  unfold Api.postVaultJoin
  apply (keeps_query (keeps_faulty _ (Prog.Keeps.query _))).bind
  intro invite
  apply (Prog.Keeps.ofOption _ _).bind
  intro invite
  apply (Prog.Keeps.query _).bind
  intro now
  apply (Prog.Keeps.ofExcept _).bind
  intro _
  apply (Prog.Keeps.ofOption _ _).bind
  intro publicKey
  apply Prog.Keeps.bind (keeps_query (keeps_faulty _
    (Prog.Keeps.execReturning _ fun w hw => hcodes _ w hw)))
  intro consumed
  apply Prog.Keeps.bind (keeps_logged (keeps_faulty _
    (keeps_insertRow fun w hw => keeps_withDb hvault _ hw)))
  intro _
  apply Prog.Keeps.bind (keeps_logged (keeps_faulty _
    (keeps_insertRow fun w hw => keeps_withDb hvault _ hw)))
  intro _
  apply Prog.Keeps.bind (keeps_logged (keeps_faulty _
    (keeps_insertRow fun w hw => keeps_withDb hvault _ hw)))
  intro _
  trivial

include hvault in
theorem keeps_revokeDevice (deviceId : String) : (Db.revokeDevice deviceId).Keeps I :=
  Prog.Keeps.execReturning _ fun _ hw => keeps_withDb hvault _ hw

include hvault in
theorem keeps_rotateAfterRevocation : (Api.rotateAfterRevocation (P := P)).Keeps I := by
  unfold Api.rotateAfterRevocation
  have hrotate : (onKeyStore (VaultKeyStore.rotateForRevocation (P := P))).Keeps I :=
    fixesNow_rotateForRevocation.keeps_zoom hvault
  exact hrotate.attempt.bind fun _ => trivial

include hvault in
theorem keeps_postRevokeDevice (headers : HeaderMap) (targetDeviceId : String) :
    (Api.postRevokeDevice headers targetDeviceId).Keeps I := by
  unfold Api.postRevokeDevice
  apply (keeps_requireRole headers .admin).bind
  intro caller
  apply (Prog.Keeps.ofExcept _).bind
  intro _
  apply (keeps_query (Prog.Keeps.query _)).bind
  intro target
  apply (Prog.Keeps.ofOption _ _).bind
  intro target
  apply (Prog.Keeps.ofExcept _).bind
  intro _
  apply (keeps_query (keeps_revokeDevice hvault _)).bind
  intro revoked
  apply (keeps_query (Prog.Keeps.query _)).bind
  intro remaining
  apply (keeps_rotateAfterRevocation hvault).bind
  intro rotation
  trivial

include hvault in
theorem keeps_revokeAll (devices : List (DeviceRecord P)) :
    (Api.revokeAll devices).Keeps I := by
  induction devices with
  | nil => trivial
  | cons dev rest ih =>
    unfold Api.revokeAll
    by_cases hlive : dev.revokedAt.isNone = true
    · rw [if_pos hlive]
      apply (keeps_query (keeps_revokeDevice hvault _)).bind
      intro revoked
      exact ih.bind fun _ => trivial
    · rw [if_neg hlive]
      exact ih

include hvault in
theorem keeps_postRemoveMember (headers : HeaderMap) (targetUserId : String) :
    (Api.postRemoveMember headers targetUserId).Keeps I := by
  unfold Api.postRemoveMember
  apply (keeps_requireRole headers .admin).bind
  intro caller
  apply (Prog.Keeps.ofExcept _).bind
  intro _
  apply (keeps_query (Prog.Keeps.query _)).bind
  intro target
  apply (Prog.Keeps.ofExcept _).bind
  intro _
  apply (keeps_query (Prog.Keeps.query _)).bind
  intro devices
  apply (keeps_revokeAll hvault devices).bind
  intro devicesRevoked
  apply Prog.Keeps.bind (keeps_query
    (Prog.Keeps.execReturning _ fun _ hw => keeps_withDb hvault _ hw))
  intro removed
  apply (keeps_rotateAfterRevocation hvault).bind
  intro rotation
  trivial

end Frame

end OmniDrive
