import Mathlib.Data.List.Basic
import OmniDrive.Vault.Rotation

/-!
# The tables of users, devices, members, sessions and invites

The statements of `users.rs`, `devices.rs`, `sessions.rs` and `invites.rs` on a world that holds
the key store with its tables and the tables of sessions and invite codes. An insert is one
statement, which the database refuses for a key in use or a user that does not exist.
-/

namespace OmniDrive

open StatementProgram Tables

/-- A row of `user_sessions`. -/
structure UserSession where
  token : String
  userId : String
  deviceId : String
  createdAt : ℤ
  expiresAt : ℤ
  deriving DecidableEq, Repr

/-- A row of `invite_codes`; the role is stored as text. -/
structure InviteCodeRecord where
  code : String
  vaultId : String
  createdBy : String
  role : String
  maxUses : ℤ
  usedCount : ℤ
  expiresAt : Option ℤ
  createdAt : ℤ
  deriving DecidableEq, Repr

/-- The key store with its tables, and the tables of the access control. -/
structure AccessWorld (P : Primitives) where
  vault : VaultWorld P
  sessions : List UserSession := []
  inviteCodes : List InviteCodeRecord := []

namespace AccessWorld

variable {P : Primitives}

/-- `epoch_secs` at the time of a statement. -/
def now (w : AccessWorld P) : ℤ := w.vault.now

/-- The world with other tables of the key store. -/
def withDb (w : AccessWorld P) (db : VaultDb P) : AccessWorld P :=
  { w with vault := { w.vault with db } }

def hasUser (w : AccessWorld P) (userId : String) : Bool :=
  w.vault.db.users.any (·.userId = userId)

def device? (w : AccessWorld P) (deviceId : String) : Option (DeviceRecord P) :=
  w.vault.db.devices.find? (·.deviceId = deviceId)

def member? (w : AccessWorld P) (userId vaultId : String) : Option VaultMemberRecord :=
  w.vault.db.vaultMembers.find? fun m => m.userId = userId && m.vaultId = vaultId

def vaultId? (w : AccessWorld P) : Option String := w.vault.db.vaultState.map (·.vaultId)

def localDeviceId? (w : AccessWorld P) : Option String :=
  w.vault.db.localDeviceIdentity.map (·.deviceId)

end AccessWorld

variable {P : Primitives} {α ε : Type}

/-- A program of the access tables. -/
abbrev AccessProg (P : Primitives) (α : Type) := Prog (AccessWorld P) DbError α

/-- Run a program of the key store. -/
def onKeyStore (p : Prog (VaultWorld P) ε α) : Prog (AccessWorld P) ε α :=
  p.zoom (·.vault) fun vault w => { w with vault }

/-- Insert a row unless the database refuses it. -/
def insertRow (refused : AccessWorld P → Option DbError) (upd : AccessWorld P → AccessWorld P) :
    AccessProg P Unit := do
  let verdict ← Prog.execReturning (fun w => if refused w = none then upd w else w) refused
  match verdict with
  | none => pure ()
  | some e => .fail e

theorem insertRow_eq (refused : AccessWorld P → Option DbError)
    (upd : AccessWorld P → AccessWorld P) :
    insertRow refused upd = Prog.execReturning (fun w => if refused w = none then upd w else w)
      refused >>= fun verdict => verdict.elim (pure ()) .fail := by
  rw [insertRow]
  congr
  funext verdict
  cases verdict <;> rfl

namespace Db

/-! ## `sessions.rs` -/

/-- `SESSION_TTL_SECONDS`. -/
def sessionTtlSeconds : ℤ := 86400

/-- A session token is a key, and its user has to exist. -/
def sessionRefused (token userId : String) (w : AccessWorld P) : Option DbError :=
  if w.sessions.any (·.token = token) then some .uniqueViolation
  else if w.hasUser userId then none
  else some .foreignKeyViolation

def newSession (token userId deviceId : String) (ttlSeconds : ℤ) (w : AccessWorld P) :
    UserSession :=
  { token, userId, deviceId, createdAt := w.now, expiresAt := w.now + ttlSeconds }

def createUserSession (token userId deviceId : String) (ttlSeconds : ℤ) :
    AccessProg P UserSession := do
  let session ← Prog.query (newSession token userId deviceId ttlSeconds)
  insertRow (sessionRefused token userId) fun w =>
    { w with sessions := w.sessions ++ [session] }
  pure session

/-- The unexpired session of a token. -/
def liveSession (token : String) (w : AccessWorld P) : Option UserSession :=
  w.sessions.find? fun s => s.token = token && w.now < s.expiresAt

def validateUserSession (token : String) : AccessProg P (Option UserSession) :=
  Prog.query (liveSession token)

def renewUserSession (token : String) (ttlSeconds : ℤ) : AccessProg P Bool :=
  Prog.execReturning
    (fun w =>
      { w with
        sessions := updateWhere (fun s => s.token = token && w.now < s.expiresAt)
          (fun s => { s with expiresAt := w.now + ttlSeconds }) w.sessions })
    fun w => w.sessions.any fun s => s.token = token && w.now < s.expiresAt

def deleteUserSession (token : String) : AccessProg P Bool :=
  Prog.execReturning
    (fun w => { w with sessions := deleteWhere (·.token = token) w.sessions })
    fun w => w.sessions.any (·.token = token)

def cleanupExpiredSessions : AccessProg P ℕ :=
  Prog.execReturning
    (fun w => { w with sessions := deleteWhere (·.expiresAt ≤ w.now) w.sessions })
    fun w => (w.sessions.filter (·.expiresAt ≤ w.now)).length

/-! ## `invites.rs` -/

def inviteRefused (code createdBy : String) (w : AccessWorld P) : Option DbError :=
  if w.inviteCodes.any (·.code = code) then some .uniqueViolation
  else if w.hasUser createdBy then none
  else some .foreignKeyViolation

def createInviteCode (code vaultId createdBy role : String) (maxUses : ℤ)
    (expiresAt : Option ℤ) : AccessProg P Unit :=
  insertRow (inviteRefused code createdBy) fun w =>
    { w with
      inviteCodes := w.inviteCodes ++
        [{ code, vaultId, createdBy, role, maxUses, usedCount := 0, expiresAt,
           createdAt := w.now }] }

def getInviteCode (code : String) : AccessProg P (Option InviteCodeRecord) :=
  Prog.query fun w => w.inviteCodes.find? (·.code = code)

/-- The verdict on a row that was read before, at the time `now`. -/
def isInviteCodeValid (now : ℤ) (code : InviteCodeRecord) : Bool :=
  code.usedCount < code.maxUses && code.expiresAt.all (now ≤ ·)

/-- A code with a use left. -/
def hasUseLeft (code : String) (r : InviteCodeRecord) : Bool :=
  r.code = code && r.usedCount < r.maxUses

def consumeInviteCode (code : String) : AccessProg P Bool :=
  Prog.execReturning
    (fun w =>
      { w with
        inviteCodes := updateWhere (hasUseLeft code)
          (fun r => { r with usedCount := r.usedCount + 1 }) w.inviteCodes })
    fun w => w.inviteCodes.any (hasUseLeft code)

/-! ## `users.rs` and `devices.rs` -/

def userRefused (userId : String) (w : AccessWorld P) : Option DbError :=
  if w.hasUser userId then some .uniqueViolation else none

/-- Create a user without an identity at another provider. -/
def createUser (userId displayName : String) : AccessProg P Unit :=
  insertRow (userRefused userId) fun w =>
    w.withDb { w.vault.db with
      users := w.vault.db.users ++ [{ userId, displayName, createdAt := w.now }] }

def getUser (userId : String) : AccessProg P (Option (UserRecord P)) :=
  Prog.query fun w => w.vault.db.users.find? (·.userId = userId)

def deviceRefused (deviceId userId : String) (w : AccessWorld P) : Option DbError :=
  if (w.device? deviceId).isSome then some .uniqueViolation
  else if w.hasUser userId then none
  else some .foreignKeyViolation

def createDevice (deviceId userId deviceName : String) (publicKey : P.Key) : AccessProg P Unit :=
  insertRow (deviceRefused deviceId userId) fun w =>
    w.withDb { w.vault.db with
      devices := w.vault.db.devices ++
        [{ deviceId, userId, deviceName, publicKey := .exact publicKey, createdAt := w.now }] }

def getDevice (deviceId : String) : AccessProg P (Option (DeviceRecord P)) :=
  Prog.query (·.device? deviceId)

def listDevicesForUser (userId : String) : AccessProg P (List (DeviceRecord P)) :=
  Prog.query fun w => orderBy (·.createdAt) (w.vault.db.devices.filter (·.userId = userId))

/-- A device that no revocation has reached. -/
def isLiveDevice (deviceId : String) (d : DeviceRecord P) : Bool :=
  d.deviceId = deviceId && d.revokedAt.isNone

def revokeDevice (deviceId : String) : AccessProg P Bool :=
  Prog.execReturning
    (fun w => w.withDb { w.vault.db with
      devices := updateWhere (isLiveDevice deviceId)
        (fun d =>
          { d with
            revokedAt := some w.now
            wrappedVaultKey := none
            wrappedVaultKeyKyber := none
            vaultKeyGeneration := none })
        w.vault.db.devices })
    fun w => w.vault.db.devices.any (isLiveDevice deviceId)

def setDeviceWrappedVaultKeyKyber (deviceId : String) (wrapped : HybridBlob P) :
    AccessProg P Unit :=
  Prog.exec fun w => w.withDb { w.vault.db with
    devices := updateWhere (·.deviceId = deviceId)
      (fun d => { d with wrappedVaultKeyKyber := some wrapped }) w.vault.db.devices }

/-- A member joins a vault once; its user and its inviter have to exist. -/
def memberRefused (userId vaultId : String) (invitedBy : Option String) (w : AccessWorld P) :
    Option DbError :=
  if (w.member? userId vaultId).isSome then some .uniqueViolation
  else if w.hasUser userId && invitedBy.all w.hasUser then none
  else some .foreignKeyViolation

def addVaultMember (userId vaultId role : String) (invitedBy : Option String) :
    AccessProg P Unit :=
  insertRow (memberRefused userId vaultId invitedBy) fun w =>
    w.withDb { w.vault.db with
      vaultMembers := w.vault.db.vaultMembers ++
        [{ userId, vaultId, role, invitedBy, joinedAt := w.now }] }

def getVaultMember (userId vaultId : String) : AccessProg P (Option VaultMemberRecord) :=
  Prog.query (·.member? userId vaultId)

def countVaultMembers (vaultId : String) : AccessProg P ℕ :=
  Prog.query fun w => (w.vault.db.vaultMembers.filter (·.vaultId = vaultId)).length

def removeVaultMember (userId vaultId : String) : AccessProg P Bool :=
  Prog.execReturning
    (fun w => w.withDb { w.vault.db with
      vaultMembers := deleteWhere (fun m => m.userId = userId && m.vaultId = vaultId)
        w.vault.db.vaultMembers })
    fun w => (w.member? userId vaultId).isSome

end Db

end OmniDrive
