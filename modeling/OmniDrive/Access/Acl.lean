import OmniDrive.Access.Database

/-!
# Role-based access control

The roles of `acl.rs`, the checks that turn the header of a request into a caller, and the
errors of the API. A program of the API fails with an `ApiError`.
-/

namespace OmniDrive

open StatementProgram

variable {P : Primitives} {α : Type}

/-- Vault-level roles, in the order of privilege. -/
inductive Role where
  | viewer
  | member
  | admin
  | owner
  deriving DecidableEq, Repr

namespace Role

/-- The privilege level. -/
def level : Role → ℕ
  | viewer => 0
  | member => 1
  | admin => 2
  | owner => 3

def fromStr (s : String) : Option Role :=
  if s = "owner" then some owner
  else if s = "admin" then some admin
  else if s = "member" then some member
  else if s = "viewer" then some viewer
  else none

/-- The text of a role in the database. -/
def toStr : Role → String
  | viewer => "viewer"
  | member => "member"
  | admin => "admin"
  | owner => "owner"

/-- The text that the debug formatter prints. -/
def debug : Role → String
  | viewer => "Viewer"
  | member => "Member"
  | admin => "Admin"
  | owner => "Owner"

def satisfies (role required : Role) : Bool := required.level ≤ role.level

/-- Every role is read back from its text. -/
@[simp] theorem fromStr_toStr (role : Role) : fromStr role.toStr = some role := by
  cases role <;> rfl

/-- Satisfying is the order of the levels, so it composes. -/
theorem satisfies_trans {a b c : Role} (hab : a.satisfies b = true) (hbc : b.satisfies c = true) :
    a.satisfies c = true := by
  simp only [satisfies, decide_eq_true_eq] at *
  omega

end Role

/-- The errors of the API; a refused statement keeps the error of the database. -/
inductive ApiError where
  | badRequest (code message : String)
  | unauthorized (message : String)
  | forbidden (message : String)
  | notFound (resource id : String)
  | conflict (message : String)
  | locked (message : String)
  | tooManyRequests (retryAfterSecs : ℕ) (message : String)
  | gone (message : String)
  | serviceUnavailable (message : String)
  | internal (message : String)
  | database (err : DbError)
  deriving DecidableEq, Repr

/-- A program of the API. -/
abbrev ApiProg (P : Primitives) (α : Type) := Prog (AccessWorld P) ApiError α

/-- A statement of the API; its error becomes an internal error. -/
def query (p : AccessProg P α) : ApiProg P α := p.mapError .database

/-- The header a request carries, if it is text. -/
structure HeaderMap where
  authorization : Option String

def stripPrefix (pre s : String) : Option String :=
  (s.toList.dropPrefix? pre.toList).map String.ofList

/-- The token of an `Authorization: Bearer` header. -/
def HeaderMap.bearer (headers : HeaderMap) : Option String :=
  headers.authorization.bind (stripPrefix "Bearer ")

/-- The header that carries a token. -/
def HeaderMap.ofToken (token : String) : HeaderMap := ⟨some ("Bearer " ++ token)⟩

/-- A header carries the token it was made for. -/
@[simp] theorem HeaderMap.bearer_ofToken (token : String) :
    (HeaderMap.ofToken token).bearer = some token := by
  have hsplit : ("Bearer " ++ token).toList.dropPrefix? "Bearer ".toList = some token.toList :=
    List.dropPrefix?_eq_some_iff.mpr ⟨"Bearer ".toList, by simp, by simp⟩
  rw [HeaderMap.bearer, HeaderMap.ofToken, Option.bind_some, stripPrefix, hsplit]
  simp

/-- A caller that is authenticated and authorised. -/
structure AuthorizedCaller where
  userId : String
  deviceId : String
  vaultId : String
  role : Role
  deriving DecidableEq, Repr

namespace Acl

def authenticateSession (headers : HeaderMap) : ApiProg P UserSession := do
  let auth ← Prog.ofOption (.unauthorized "missing or malformed Authorization header")
    headers.bearer
  let session ← query (Db.validateUserSession auth)
  Prog.ofOption (.unauthorized "invalid or expired session token") session

/-- The role in a membership row, checked against the least role asked for. -/
def checkRole (minRole : Role) (member : VaultMemberRecord) : Except ApiError Role :=
  match Role.fromStr member.role with
  | none => .error (.internal ("unknown role: " ++ member.role))
  | some role =>
    if role.satisfies minRole then .ok role
    else .error (.forbidden
      ("requires " ++ minRole.debug ++ " or higher, caller is " ++ role.debug))

def requireRole (headers : HeaderMap) (minRole : Role) : ApiProg P AuthorizedCaller := do
  let session ← authenticateSession headers
  let vaultId ← Prog.query AccessWorld.vaultId?
  let vaultId ← Prog.ofOption (.badRequest "vault_not_initialized" "vault not initialized") vaultId
  let member ← query (Db.getVaultMember session.userId vaultId)
  let member ← Prog.ofOption (.forbidden "user is not a vault member") member
  let role ← Prog.ofExcept (checkRole minRole member)
  pure { userId := session.userId, deviceId := session.deviceId, vaultId, role }

/-- Before the vault has parameters, nobody is an outsider. -/
def isVaultMember (userId : String) : ApiProg P Bool := do
  let vaultId ← Prog.query AccessWorld.vaultId?
  match vaultId with
  | none => pure true
  | some vaultId => do
    let member ← query (Db.getVaultMember userId vaultId)
    pure member.isSome

def ensureVaultMember (userId : String) : ApiProg P Unit := do
  let member ← isVaultMember userId
  if member then pure () else .fail (.forbidden "user is not a vault member")

def requireSession (headers : HeaderMap) : ApiProg P UserSession := do
  let session ← authenticateSession headers
  ensureVaultMember session.userId
  pure session

/-! ## What the checks return -/

variable {w w' : AccessWorld P} {headers : HeaderMap}

/-- The session a request bears. -/
def bearerSession (headers : HeaderMap) (w : AccessWorld P) : Option UserSession :=
  headers.bearer.bind fun token => Db.liveSession token w

/-- Authentication is the lookup of an unexpired session and changes nothing. -/
theorem run_authenticateSession (headers : HeaderMap) (w : AccessWorld P) :
    ∃ e, (authenticateSession headers).run w =
      (((bearerSession headers w).map Except.ok).getD (.error (.unauthorized e)), w) := by
  unfold authenticateSession bearerSession
  cases headers.bearer with
  | none => exact ⟨_, rfl⟩
  | some token =>
    refine ⟨"invalid or expired session token", ?_⟩
    show (Prog.ofOption _ (Db.liveSession token w)).run w = _
    simp only [Option.bind_some]
    cases Db.liveSession token w with
    | none => rfl
    | some session => rfl

/-- A request is authenticated exactly as its unexpired session. -/
theorem run_authenticateSession_eq_ok {s : UserSession} :
    (authenticateSession headers).run w = (.ok s, w') ↔
      bearerSession headers w = some s ∧ w = w' := by
  obtain ⟨e, hrun⟩ := run_authenticateSession headers w
  rw [hrun]
  cases bearerSession headers w with
  | none => simp
  | some session => simp

/-- What a request needs to pass `requireRole`. -/
structure Passes (headers : HeaderMap) (minRole : Role) (w : AccessWorld P)
    (caller : AuthorizedCaller) : Prop where
  session : ∃ s, bearerSession headers w = some s ∧ s.userId = caller.userId ∧
    s.deviceId = caller.deviceId
  vault : w.vaultId? = some caller.vaultId
  member : ∃ m, w.member? caller.userId caller.vaultId = some m ∧
    Role.fromStr m.role = some caller.role
  role : caller.role.satisfies minRole = true

/-- A role check that succeeds returns the role of the row. -/
theorem checkRole_eq_ok {minRole role : Role} {member : VaultMemberRecord}
    (h : checkRole minRole member = .ok role) :
    Role.fromStr member.role = some role ∧ role.satisfies minRole = true := by
  unfold checkRole at h
  cases hrole : Role.fromStr member.role with
  | none =>
    rw [hrole] at h
    cases h
  | some stored =>
    simp only [hrole] at h
    by_cases hsat : stored.satisfies minRole = true
    · rw [if_pos hsat] at h
      cases h
      exact ⟨rfl, hsat⟩
    · rw [if_neg hsat] at h
      cases h

/-- A request that passes bears a live session of a member with a sufficient role, and nothing
has changed. -/
theorem passes_of_requireRole {minRole : Role} {caller : AuthorizedCaller}
    (h : (requireRole headers minRole).run w = (.ok caller, w')) :
    Passes headers minRole w caller ∧ w' = w := by
  obtain ⟨s, t, hauth, h⟩ := Prog.run_bind_ok h
  obtain ⟨hs, rfl⟩ := run_authenticateSession_eq_ok.mp hauth
  simp only [query, Db.getVaultMember, Prog.run_query_bind] at h
  cases hvault : w.vaultId? with
  | none =>
    rw [hvault] at h
    simp at h
  | some vaultId =>
    rw [hvault, Prog.ofOption_some, Prog.ret_bind] at h
    change ((Prog.ofOption _ (w.member? s.userId vaultId) >>= _ : ApiProg P _)).run w = _ at h
    cases hmember : w.member? s.userId vaultId with
    | none =>
      rw [hmember] at h
      simp at h
    | some m =>
      rw [hmember, Prog.ofOption_some, Prog.ret_bind] at h
      cases hrole : checkRole minRole m with
      | error e =>
        rw [hrole] at h
        simp at h
      | ok role =>
        obtain ⟨hfrom, hsat⟩ := checkRole_eq_ok hrole
        simp only [hrole, Prog.ofExcept_ok, Prog.ret_bind, Prog.pure_eq_ret, Prog.run_ret,
          Prod.mk.injEq, Except.ok.injEq] at h
        obtain ⟨rfl, rfl⟩ := h
        exact ⟨⟨⟨s, hs, rfl, rfl⟩, hvault, ⟨m, hmember, hfrom⟩, hsat⟩, rfl⟩

/-- The session check lets only live sessions pass and changes nothing. -/
theorem bearerSession_of_requireSession {s : UserSession}
    (h : (requireSession headers).run w = (.ok s, w')) :
    bearerSession headers w = some s ∧ w' = w := by
  obtain ⟨s', t, hauth, h⟩ := Prog.run_bind_ok h
  obtain ⟨hs, rfl⟩ := run_authenticateSession_eq_ok.mp hauth
  obtain ⟨u, t, hensure, h⟩ := Prog.run_bind_ok h
  have ht : t = w := by
    obtain ⟨member, t', hmember, hensure⟩ := Prog.run_bind_ok hensure
    have ht' : t' = w := by
      simp only [isVaultMember, Prog.run_query_bind] at hmember
      cases hvault : w.vaultId? with
      | none =>
        simp only [hvault, Prog.pure_eq_ret, Prog.run_ret, Prod.mk.injEq] at hmember
        exact hmember.2.symm
      | some vaultId =>
        simp only [hvault] at hmember
        have hpair := congrArg (·.2) hmember
        exact hpair.symm
    by_cases hm : member = true
    · rw [if_pos hm] at hensure
      rw [← ht']
      exact (congrArg (·.2) hensure).symm
    · rw [if_neg hm] at hensure
      cases congrArg (·.1) hensure
  simp only [Prog.pure_eq_ret, Prog.run_ret, Prod.mk.injEq, Except.ok.injEq] at h
  obtain ⟨rfl, rfl⟩ := h
  exact ⟨hs, ht⟩

end Acl

end OmniDrive
