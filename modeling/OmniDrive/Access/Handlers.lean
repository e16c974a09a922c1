import OmniDrive.Access.Acl

/-!
# The handlers of sessions, members and devices

The request handlers of `api/auth.rs`, `api/oauth.rs` and `api/vault.rs` that create sessions,
invite and admit members, and revoke devices and members. What a handler draws at random is an
argument; what it logs to the audit table is left out. A statement that the handler lets fail is
run under a fault of the environment.
-/

namespace OmniDrive

open StatementProgram Tables

variable {P : Primitives} {α : Type}

/-- A statement that fails without effect when the environment makes it fail. -/
def faulty (fault : Bool) (p : AccessProg P α) : AccessProg P α :=
  if fault then .fail .unavailable else p

/-- A statement whose failure is logged and ignored. -/
def logged (p : AccessProg P α) : ApiProg P Unit := do
  let _ ← (p.attempt : ApiProg P (Except DbError α))
  pure ()

namespace Api

/-! ## Sessions -/

/-- Look up the local device, the user that owns it, and create a session for the two. -/
def createSessionForLocalDevice (token : String) : Prog (AccessWorld P) String UserSession := do
  let deviceId ← Prog.query AccessWorld.localDeviceId?
  let deviceId ← Prog.ofOption "no local device identity" deviceId
  let record ← Prog.query (AccessWorld.device? · deviceId)
  let record ← Prog.ofOption "device not in multi-user tables" record
  (Db.createUserSession token record.userId deviceId Db.sessionTtlSeconds).mapError
    fun _ => "session insert error"

/-- An unlock hands out a session if it can. -/
def issueLocalSession (token : String) : ApiProg P (Option UserSession) := do
  let session ← ((createSessionForLocalDevice token).attempt : ApiProg P (Except String _))
  pure session.toOption

def postAuthRenew (headers : HeaderMap) : ApiProg P ℤ := do
  let session ← Acl.requireSession headers
  let renewed ← query (Db.renewUserSession session.token Db.sessionTtlSeconds)
  if renewed then Prog.query fun w => w.now + Db.sessionTtlSeconds
  else .fail (.unauthorized "invalid or expired session")

/-- Log a member out: lock the vault and delete the session. -/
def postAuthLogout (headers : HeaderMap) : ApiProg P Unit := do
  let session ← Acl.authenticateSession headers
  let member ← Acl.isVaultMember session.userId
  lockFor member
  let deleted ← query (Db.deleteUserSession session.token)
  if deleted then pure () else .fail (.notFound "session" "current")
where
  /-- Only a member locks the vault. -/
  lockFor (member : Bool) : ApiProg P Unit :=
    if member then
      (onKeyStore VaultKeyStore.lock).mapError fun _ => .internal "lock"
    else pure ()

/-- What the identity provider says about a user. -/
structure UserInfo where
  sub : String
  displayName : String
  email : Option String
  refreshToken : Option String

/-- The row of a user at the identity provider. -/
def isGoogleUser (sub : String) (u : UserRecord P) : Bool :=
  u.authProvider = "google" && u.authSubject = some sub

/-- Create the user of the provider, or update its row. -/
def upsertGoogleUser (newUserId : String) (info : UserInfo) (w : AccessWorld P) : AccessWorld P :=
  if w.vault.db.users.any (isGoogleUser info.sub) then
    w.withDb { w.vault.db with
      users := updateWhere (isGoogleUser info.sub)
        (fun u =>
          { u with
            displayName := info.displayName
            email := info.email
            googleRefreshToken := info.refreshToken.or u.googleRefreshToken })
        w.vault.db.users }
  else if w.hasUser newUserId then w
  else w.withDb { w.vault.db with
    users := w.vault.db.users ++
      [{ userId := newUserId
         displayName := info.displayName
         email := info.email
         authProvider := "google"
         authSubject := some info.sub
         googleRefreshToken := info.refreshToken
         createdAt := w.now }] }

/-- Seal a refresh token if the vault is unlocked; otherwise its plaintext stays. -/
def sealRefreshToken (userId : String) : Option String → Prog (VaultWorld P) VaultError Unit
  | none => pure ()
  | some token => do
    let cipher ← VaultKeyStore.sealOauthToken userId token
    Db.storeEncryptedRefreshToken userId cipher
    Db.clearPlaintextRefreshToken userId

/-- Nobody but a member logs in to a vault that has members. -/
def admitOauthUser (userId : String) : ApiProg P Unit := do
  let vaultId ← Prog.query AccessWorld.vaultId?
  match vaultId with
  | none => pure ()
  | some vaultId => do
    let members ← query (Db.countVaultMembers vaultId)
    let member ← query (Db.getVaultMember userId vaultId)
    if 0 < members ∧ member = none then .fail (.forbidden "user is not a vault member")
    else pure ()

/-- The callback of the identity provider. Its session is for a browser and not for a device of
the vault: the device id is a fresh one with the prefix `web-`. -/
def getGoogleCallback (info : UserInfo) (newUserId token webId : String) :
    ApiProg P UserSession := do
  Prog.exec (upsertGoogleUser newUserId info)
  let user ← Prog.query fun w => w.vault.db.users.find? (isGoogleUser info.sub)
  let user ← Prog.ofOption (.internal "user_lookup_failed") user
  admitOauthUser user.userId
  let _ ← ((onKeyStore (sealRefreshToken user.userId info.refreshToken)).attempt :
    ApiProg P (Except VaultError Unit))
  query (Db.createUserSession token user.userId ("web-" ++ webId) Db.sessionTtlSeconds)

/-! ## Invites -/

structure InviteRequest where
  role : Option String
  maxUses : Option ℤ
  expiresInSecs : Option ℤ

structure InviteResponse where
  code : String
  role : String
  maxUses : ℤ
  expiresAt : Option ℤ
  deriving DecidableEq, Repr

def postVaultInvite (headers : HeaderMap) (req : InviteRequest) (code : String) :
    ApiProg P InviteResponse := do
  let caller ← Acl.requireRole headers .admin
  let role := req.role.getD "member"
  let maxUses := req.maxUses.getD 1
  let now ← Prog.query AccessWorld.now
  let expiresAt := req.expiresInSecs.map (now + ·)
  query (Db.createInviteCode code caller.vaultId caller.userId role maxUses expiresAt)
  pure { code, role, maxUses, expiresAt }

/-- A request to join; the public key is the decoded one, if it has 32 bytes. -/
structure JoinRequest (P : Primitives) where
  inviteCode : String
  deviceId : String
  deviceName : String
  publicKey : Option P.Key

structure JoinResponse where
  userId : String
  deviceId : String
  role : String
  deriving DecidableEq, Repr

/-- The statements of a join that the environment lets fail. -/
structure JoinFaults where
  lookup : Bool := false
  consume : Bool := false
  createUser : Bool := false
  createDevice : Bool := false
  addMember : Bool := false

/-- The user that a join creates for a device. -/
def joinUserId (deviceId : String) : String := "user-" ++ deviceId

def checkInvite (now : ℤ) (invite : InviteCodeRecord) : Except ApiError Unit :=
  if Db.isInviteCodeValid now invite then .ok ()
  else .error (.badRequest "invite_expired_or_exhausted" "invite code is expired or exhausted")

/-- The verdict of the consumption is ignored, and a refused insert is only logged. -/
def postVaultJoin (faults : JoinFaults) (req : JoinRequest P) : ApiProg P JoinResponse := do
  let invite ← query (faulty faults.lookup (Db.getInviteCode req.inviteCode))
  let invite ← Prog.ofOption (.badRequest "invalid_invite_code" "invite code not found") invite
  let now ← Prog.query AccessWorld.now
  Prog.ofExcept (checkInvite now invite)
  let publicKey ← Prog.ofOption
    (.badRequest "invalid_public_key" "expected 32-byte X25519 public key (base64url)")
    req.publicKey
  let _ ← query (faulty faults.consume (Db.consumeInviteCode req.inviteCode))
  logged (faulty faults.createUser (Db.createUser (joinUserId req.deviceId) req.deviceName))
  logged (faulty faults.createDevice
    (Db.createDevice req.deviceId (joinUserId req.deviceId) req.deviceName publicKey))
  logged (faulty faults.addMember
    (Db.addVaultMember (joinUserId req.deviceId) invite.vaultId invite.role
      (some invite.createdBy)))
  pure { userId := joinUserId req.deviceId, deviceId := req.deviceId, role := invite.role }

/-! ## Revocation -/

/-- Rotate the vault key; a failure is logged and ignored. -/
def rotateAfterRevocation :
    ApiProg P (Option VaultKeyStore.RevocationRotationResult) := do
  let rotation ← ((onKeyStore VaultKeyStore.rotateForRevocation).attempt :
    ApiProg P (Except VaultError _))
  pure rotation.toOption

/-- Whether a device can be revoked by a caller on another device. -/
def checkRevocable (callerDeviceId targetDeviceId : String) : Except ApiError Unit :=
  if callerDeviceId = targetDeviceId then
    .error (.badRequest "cannot_revoke_self"
      "cannot revoke the local device — use another device to revoke this one")
  else .ok ()

def checkNotRevoked (target : DeviceRecord P) : Except ApiError Unit :=
  if target.revokedAt.isSome then .error (.conflict "device is already revoked") else .ok ()

structure RevokeResponse where
  deviceId : String
  userId : String
  remainingActiveDevices : ℕ
  vkRotation : Option VaultKeyStore.RevocationRotationResult
  deriving DecidableEq, Repr

def postRevokeDevice (headers : HeaderMap) (targetDeviceId : String) :
    ApiProg P RevokeResponse := do
  let caller ← Acl.requireRole headers .admin
  Prog.ofExcept (checkRevocable caller.deviceId targetDeviceId)
  let target ← query (Db.getDevice targetDeviceId)
  let target ← Prog.ofOption (.notFound "device" targetDeviceId) target
  Prog.ofExcept (checkNotRevoked target)
  let _ ← query (Db.revokeDevice targetDeviceId)
  let remaining ← query (Prog.query fun w : AccessWorld P =>
    (w.vault.db.devices.filter fun d =>
      d.userId = target.userId && d.revokedAt.isNone && d.wrappedVaultKey.isSome).length)
  let vkRotation ← rotateAfterRevocation
  pure { deviceId := targetDeviceId, userId := target.userId,
         remainingActiveDevices := remaining, vkRotation }

def checkRemovable (target : Option VaultMemberRecord) (targetUserId : String) :
    Except ApiError Unit :=
  match target with
  | none => .error (.notFound "member" targetUserId)
  | some m =>
    if m.role = "owner" then .error (.forbidden "cannot remove the vault owner") else .ok ()

def checkNotSelf (callerUserId targetUserId : String) : Except ApiError Unit :=
  if callerUserId = targetUserId then
    .error (.badRequest "cannot_remove_self" "cannot remove yourself — transfer ownership first")
  else .ok ()

/-- Revoke the listed devices that are not revoked yet. -/
def revokeAll : List (DeviceRecord P) → ApiProg P ℕ
  | [] => pure 0
  | dev :: rest =>
    if dev.revokedAt.isNone then do
      let revoked ← query (Db.revokeDevice dev.deviceId)
      let tail ← revokeAll rest
      pure (revoked.toNat + tail)
    else revokeAll rest

structure RemoveResponse where
  userId : String
  devicesRevoked : ℕ
  vkRotation : Option VaultKeyStore.RevocationRotationResult
  deriving DecidableEq, Repr

def postRemoveMember (headers : HeaderMap) (targetUserId : String) :
    ApiProg P RemoveResponse := do
  let caller ← Acl.requireRole headers .admin
  Prog.ofExcept (checkNotSelf caller.userId targetUserId)
  let target ← query (Db.getVaultMember targetUserId caller.vaultId)
  Prog.ofExcept (checkRemovable target targetUserId)
  let devices ← query (Db.listDevicesForUser targetUserId)
  let devicesRevoked ← revokeAll devices
  let _ ← query (Db.removeVaultMember targetUserId caller.vaultId)
  let vkRotation ← rotateAfterRevocation
  pure { userId := targetUserId, devicesRevoked, vkRotation }

end Api

end OmniDrive
