import OmniDrive.Access.Handlers

/-!
# Requests in flight

A join that other requests interleave with stands between two of its statements. The points are
those of `post_vault_join`: the lookup of the code, the check of the row it found, the
consumption and the three inserts. Each point carries what the handler holds there, and what is
left of the handler is a suffix of its program.
-/

namespace OmniDrive

open StatementProgram Tables

variable {P : Primitives}

namespace Joining

/-- What the statements of one join have done. -/
structure JoinEffects where
  consumed : Bool := false
  user : Bool := false
  device : Bool := false
  member : Bool := false
  deriving DecidableEq, Repr

/-- Where a join stands, with the values it has read. -/
inductive JoinPoint (P : Primitives) where
  | lookup
  | check (invite : InviteCodeRecord)
  | consume (invite : InviteCodeRecord) (publicKey : P.Key)
  | createUser (invite : InviteCodeRecord) (publicKey : P.Key)
  | createDevice (invite : InviteCodeRecord) (publicKey : P.Key)
  | addMember (invite : InviteCodeRecord)
  | returned (outcome : Except ApiError Api.JoinResponse)

structure JoinThread (P : Primitives) where
  req : Api.JoinRequest P
  faults : Api.JoinFaults
  point : JoinPoint P := .lookup
  effects : JoinEffects := {}

namespace JoinThread

variable (t : JoinThread P)

/-! ## The statements of a join -/

def lookupStmt : AccessProg P (Option InviteCodeRecord) :=
  faulty t.faults.lookup (Db.getInviteCode t.req.inviteCode)

def consumeStmt : AccessProg P Bool :=
  faulty t.faults.consume (Db.consumeInviteCode t.req.inviteCode)

def createUserStmt : AccessProg P Unit :=
  faulty t.faults.createUser
    (Db.createUser (Api.joinUserId t.req.deviceId) t.req.deviceName)

def createDeviceStmt (publicKey : P.Key) : AccessProg P Unit :=
  faulty t.faults.createDevice
    (Db.createDevice t.req.deviceId (Api.joinUserId t.req.deviceId) t.req.deviceName publicKey)

def addMemberStmt (invite : InviteCodeRecord) : AccessProg P Unit :=
  faulty t.faults.addMember
    (Db.addVaultMember (Api.joinUserId t.req.deviceId) invite.vaultId invite.role
      (some invite.createdBy))

def response (invite : InviteCodeRecord) : Api.JoinResponse :=
  { userId := Api.joinUserId t.req.deviceId, deviceId := t.req.deviceId, role := invite.role }

/-! ## The rest of the handler -/

def fromAddMember (invite : InviteCodeRecord) : ApiProg P Api.JoinResponse := do
  logged (t.addMemberStmt invite)
  pure (t.response invite)

def fromCreateDevice (invite : InviteCodeRecord) (publicKey : P.Key) :
    ApiProg P Api.JoinResponse := do
  logged (t.createDeviceStmt publicKey)
  t.fromAddMember invite

def fromCreateUser (invite : InviteCodeRecord) (publicKey : P.Key) :
    ApiProg P Api.JoinResponse := do
  logged t.createUserStmt
  t.fromCreateDevice invite publicKey

def fromConsume (invite : InviteCodeRecord) (publicKey : P.Key) :
    ApiProg P Api.JoinResponse := do
  let _ ← query t.consumeStmt
  t.fromCreateUser invite publicKey

def decodedKey : Except ApiError P.Key :=
  match t.req.publicKey with
  | some publicKey => .ok publicKey
  | none => .error
    (.badRequest "invalid_public_key" "expected 32-byte X25519 public key (base64url)")

/-- The check of the row at the given time, then of the public key. -/
def admissible (invite : InviteCodeRecord) (now : ℤ) : Except ApiError P.Key :=
  (Api.checkInvite now invite).bind fun _ => t.decodedKey

def fromCheck (invite : InviteCodeRecord) : ApiProg P Api.JoinResponse := do
  let now ← Prog.query AccessWorld.now
  let publicKey ← Prog.ofExcept (t.admissible invite now)
  t.fromConsume invite publicKey

def notFound : ApiError := .badRequest "invalid_invite_code" "invite code not found"

/-- What is left of the handler. -/
def remaining : ApiProg P Api.JoinResponse :=
  match t.point with
  | .lookup => do
    let invite ← query t.lookupStmt
    let invite ← Prog.ofOption notFound invite
    t.fromCheck invite
  | .check invite => t.fromCheck invite
  | .consume invite publicKey => t.fromConsume invite publicKey
  | .createUser invite publicKey => t.fromCreateUser invite publicKey
  | .createDevice invite publicKey => t.fromCreateDevice invite publicKey
  | .addMember invite => t.fromAddMember invite
  | .returned outcome => Prog.ofExcept outcome

/-! ## One step -/

/-- The next statement, the effect it has and the world it leaves. -/
def next (w : AccessWorld P) : JoinThread P × AccessWorld P :=
  match t.point with
  | .lookup => match (t.lookupStmt.run w).1 with
    | .error e => ({ t with point := .returned (.error (.database e)) }, w)
    | .ok none => ({ t with point := .returned (.error notFound) }, w)
    | .ok (some invite) => ({ t with point := .check invite }, w)
  | .check invite => match t.admissible invite w.now with
    | .error e => ({ t with point := .returned (.error e) }, w)
    | .ok publicKey => ({ t with point := .consume invite publicKey }, w)
  | .consume invite publicKey => match (t.consumeStmt.run w).1 with
    | .error e => ({ t with point := .returned (.error (.database e)) }, w)
    | .ok consumed =>
      ({ t with point := .createUser invite publicKey, effects.consumed := consumed },
        (t.consumeStmt.run w).2)
  | .createUser invite publicKey =>
    ({ t with
        point := .createDevice invite publicKey
        effects.user := (t.createUserStmt.run w).1.isOk },
      (t.createUserStmt.run w).2)
  | .createDevice invite publicKey =>
    ({ t with
        point := .addMember invite
        effects.device := ((t.createDeviceStmt publicKey).run w).1.isOk },
      ((t.createDeviceStmt publicKey).run w).2)
  | .addMember invite =>
    ({ t with
        point := .returned (.ok (t.response invite))
        effects.member := ((t.addMemberStmt invite).run w).1.isOk },
      ((t.addMemberStmt invite).run w).2)
  | .returned _ => (t, w)

/-- A join starts as the whole handler. -/
theorem remaining_start (req : Api.JoinRequest P) (faults : Api.JoinFaults) :
    JoinThread.remaining { req, faults } = Api.postVaultJoin faults req := by
  have hcheck : ∀ (invite : InviteCodeRecord) (now : ℤ)
      (k : P.Key → ApiProg P Api.JoinResponse),
      (Prog.ofExcept (JoinThread.admissible { req, faults } invite now) >>= k) =
        (do
          Prog.ofExcept (Api.checkInvite now invite)
          let publicKey ← Prog.ofOption
            (.badRequest "invalid_public_key" "expected 32-byte X25519 public key (base64url)")
            req.publicKey
          k publicKey) := by
    intro invite now k
    unfold admissible decodedKey
    cases Api.checkInvite now invite with
    | error e => rfl
    | ok _ => cases req.publicKey <;> rfl
  have hfrom : ∀ invite : InviteCodeRecord, JoinThread.fromCheck { req, faults } invite = (do
      let now ← Prog.query AccessWorld.now
      Prog.ofExcept (Api.checkInvite now invite)
      let publicKey ← Prog.ofOption
        (.badRequest "invalid_public_key" "expected 32-byte X25519 public key (base64url)")
        req.publicKey
      JoinThread.fromConsume { req, faults } invite publicKey) := by
    intro invite
    unfold fromCheck
    simp only [hcheck]
  unfold remaining Api.postVaultJoin
  simp only [hfrom]
  rfl

/-- A statement that may be refused is one statement at most, and the rest follows it. -/
theorem steps_logged (fault : Bool) (refused : AccessWorld P → Option DbError)
    (upd : AccessWorld P → AccessWorld P) {β : Type} (k : ApiProg P β) (w : AccessWorld P) :
    ∃ n ≤ 1, (logged (faulty fault (insertRow refused upd)) >>= fun _ => k).steps n w =
      (k, ((faulty fault (insertRow refused upd)).run w).2) := by
  cases fault with
  | true => exact ⟨0, Nat.zero_le 1, by rw [Prog.steps_zero]; rfl⟩
  | false =>
    refine ⟨1, le_refl 1, ?_⟩
    have hstate : ((faulty false (insertRow refused upd)).run w).2 =
        if refused w = none then upd w else w := by
      show ((insertRow refused upd).run w).2 = _
      unfold insertRow
      rw [Prog.run_execReturning_bind]
      cases refused w <;> rfl
    rw [hstate]
    simp only [logged, faulty, insertRow, Prog.execReturning]
    cases hrefused : refused w with
    | none => simp [Prog.attempt, hrefused]
    | some e => simp [Prog.attempt, hrefused]

/-- One step of a join is one statement of the handler at most. -/
theorem steps_next (t : JoinThread P) (w : AccessWorld P) :
    ∃ n ≤ 1, t.remaining.steps n w = ((t.next w).1.remaining, (t.next w).2) := by
  obtain ⟨req, faults, point, effects⟩ := t
  cases point with
  | lookup =>
    cases hfault : faults.lookup with
    | true =>
      refine ⟨0, Nat.zero_le 1, ?_⟩
      simp [remaining, next, lookupStmt, faulty, hfault, query, Prog.mapError, Prog.ofExcept]
    | false =>
      refine ⟨1, le_refl 1, ?_⟩
      cases hfind : w.inviteCodes.find? (·.code = req.inviteCode) with
      | none =>
        simp [remaining, next, lookupStmt, faulty, hfault, query, Prog.mapError,
          Db.getInviteCode, Prog.query, hfind, Prog.ofExcept]
      | some invite =>
        simp [remaining, next, lookupStmt, faulty, hfault, query, Prog.mapError,
          Db.getInviteCode, Prog.query, hfind]
        rfl
  | check invite =>
    refine ⟨1, le_refl 1, ?_⟩
    simp only [remaining, next, fromCheck, Prog.query, Prog.stmt_bind, Prog.ret_bind,
      Prog.steps_stmt_succ, Prog.steps_zero, id]
    cases hok : JoinThread.admissible { req, faults, point := .check invite, effects } invite
        w.now with
    | error e => simp [Prog.ofExcept]
    | ok publicKey => simp; rfl
  | consume invite publicKey =>
    cases hfault : faults.consume with
    | true =>
      refine ⟨0, Nat.zero_le 1, ?_⟩
      simp [remaining, next, fromConsume, consumeStmt, faulty, hfault, query, Prog.mapError,
        Prog.ofExcept]
    | false =>
      refine ⟨1, le_refl 1, ?_⟩
      simp [remaining, next, fromConsume, consumeStmt, faulty, hfault, query, Prog.mapError,
        Db.consumeInviteCode, Prog.execReturning]
      rfl
  | createUser invite publicKey => exact steps_logged _ _ _ _ w
  | createDevice invite publicKey => exact steps_logged _ _ _ _ w
  | addMember invite => exact steps_logged _ _ _ _ w
  | returned outcome =>
    refine ⟨0, Nat.zero_le 1, ?_⟩
    rw [Prog.steps_zero]
    rfl

end JoinThread

end Joining

end OmniDrive
