import OmniDrive.Access.Joining
import OmniDrive.Access.Revocation
import OmniDrive.Library.Threads

/-!
# Admission by invite codes

Invites and joins interleaved statement by statement. The handler of a join ignores the verdict
of the consumption and logs what its inserts refuse, and the handler of an invite takes any text
for a role. Where no request meets one of these, a code admits at most its number of uses, every
join is all or nothing and no member is admitted above its inviter.
-/

namespace OmniDrive

open StatementProgram GuardedRuns Tables

namespace Joining

variable {P : Primitives}

/-- Where an invite stands: at its gate, before its insert, or at its end. -/
inductive InvitePoint where
  | gate
  | insert (caller : AuthorizedCaller) (expiresAt : Option ℤ)
  | returned (ok : Bool)

structure InviteThread where
  headers : HeaderMap
  req : Api.InviteRequest
  code : String
  point : InvitePoint := .gate

namespace InviteThread

variable (t : InviteThread)

/-- The role the request asks for. -/
def role : String := t.req.role.getD "member"

def insertStmt (caller : AuthorizedCaller) (expiresAt : Option ℤ) : AccessProg P Unit :=
  Db.createInviteCode t.code caller.vaultId caller.userId t.role (t.req.maxUses.getD 1) expiresAt

/-- The gate and the reading of the clock, then the insert. -/
def next (w : AccessWorld P) : InviteThread × AccessWorld P :=
  match t.point with
  | .gate => match ((Acl.requireRole t.headers .admin).run w).1 with
    | .error _ => ({ t with point := .returned false }, w)
    | .ok caller =>
      ({ t with point := .insert caller (t.req.expiresInSecs.map (w.now + ·)) }, w)
  | .insert caller expiresAt =>
    ({ t with point := .returned ((t.insertStmt caller expiresAt).run w).1.isOk },
      ((t.insertStmt caller expiresAt).run w).2)
  | .returned _ => (t, w)

end InviteThread

/-- The world and the requests in flight. -/
structure Admission (P : Primitives) where
  world : AccessWorld P
  invites : List InviteThread := []
  joins : List (JoinThread P) := []

inductive AdmissionOp (P : Primitives) where
  | tick (seconds : ℕ)
  | openInvite (headers : HeaderMap) (req : Api.InviteRequest) (code : String)
  | openJoin (faults : Api.JoinFaults) (req : Api.JoinRequest P)
  | stepInvite (i : ℕ)
  | stepJoin (i : ℕ)

namespace AdmissionOp

def step : AdmissionOp P → Admission P → Admission P
  | tick seconds, s =>
    { s with world.vault.now := s.world.vault.now + seconds }
  | openInvite headers req code, s => { s with invites := s.invites ++ [{ headers, req, code }] }
  | openJoin faults req, s => { s with joins := s.joins ++ [{ req, faults }] }
  | stepInvite i, s => match s.invites[i]? with
    | none => s
    | some t =>
      { s with world := (t.next s.world).2, invites := s.invites.set i (t.next s.world).1 }
  | stepJoin i, s => match s.joins[i]? with
    | none => s
    | some t => { s with world := (t.next s.world).2, joins := s.joins.set i (t.next s.world).1 }

/-- The condition on the step of a join: the consumption finds a use left, and no insert is
refused or fails. -/
def JoinGuard (t : JoinThread P) (w : AccessWorld P) : Prop :=
  match t.point with
  | .consume _ _ => t.faults.consume = false → w.inviteCodes.any (Db.hasUseLeft t.req.inviteCode)
  | .createUser _ _ => (t.createUserStmt.run w).1.isOk = true
  | .createDevice _ publicKey => ((t.createDeviceStmt publicKey).run w).1.isOk = true
  | .addMember invite => ((t.addMemberStmt invite).run w).1.isOk = true
  | _ => True

/-- The condition on the insert of an invite: the role it asks for is known and not above the
role of the caller. -/
def InviteGuard (t : InviteThread) : Prop :=
  match t.point with
  | .insert caller _ => ∃ role, Role.fromStr t.role = some role ∧ caller.role.satisfies role = true
  | _ => True

def Guard : AdmissionOp P → Admission P → Prop
  | stepInvite i, s => ∀ t, s.invites[i]? = some t → InviteGuard t
  | stepJoin i, s => ∀ t, s.joins[i]? = some t → JoinGuard t s.world
  | _, _ => True

end AdmissionOp

/-! ## What admission promises -/

/-- The role is known, and the inviter is a member whose own role satisfies it. -/
def RoleFrom (role createdBy vaultId : String) (w : AccessWorld P) : Prop :=
  ∃ r m inviter, Role.fromStr role = some r ∧ w.member? createdBy vaultId = some m ∧
    Role.fromStr m.role = some inviter ∧ inviter.satisfies r = true

/-- A join with the code that has returned. -/
def JoinThread.Admitted (code : String) (t : JoinThread P) : Bool :=
  t.req.inviteCode = code && match t.point with
    | .returned outcome => outcome.isOk
    | _ => false

/-- A join that has returned did everything or nothing. -/
def JoinThread.AllOrNothing (t : JoinThread P) : Prop :=
  ∀ outcome, t.point = .returned outcome →
    (outcome.isOk = true ∧ t.effects = ⟨true, true, true, true⟩) ∨
      (outcome.isOk = false ∧ t.effects = {})

/-- The membership a join has created carries a role from its inviter. -/
def JoinThread.MemberSound (t : JoinThread P) (w : AccessWorld P) : Prop :=
  t.effects.member = true → ∃ m ∈ w.vault.db.vaultMembers,
    m.userId = Api.joinUserId t.req.deviceId ∧
      ∃ inviter, m.invitedBy = some inviter ∧ RoleFrom m.role inviter m.vaultId w

/-- What the invite codes promise, from the world `start` on. -/
structure Admits (start : AccessWorld P) (s : Admission P) : Prop where
  uses : ∀ r ∈ s.world.inviteCodes,
    (s.joins.countP (JoinThread.Admitted r.code) : ℤ) ≤ max r.maxUses 0
  roles : ∀ t ∈ s.joins, t.MemberSound s.world
  whole : ∀ t ∈ s.joins, t.AllOrNothing
  members : start.vault.db.vaultMembers <+: s.world.vault.db.vaultMembers
  devices : start.vault.db.devices <+: s.world.vault.db.devices

/-- The codes a run starts from: each counts its uses, and carries a role from its inviter. -/
structure CodesSound (w : AccessWorld P) : Prop where
  unique : (w.inviteCodes.map (·.code)).Nodup
  counted : ∀ r ∈ w.inviteCodes, 0 ≤ r.usedCount ∧ r.usedCount ≤ max r.maxUses 0
  roles : ∀ r ∈ w.inviteCodes, RoleFrom r.role r.createdBy r.vaultId w

/-! ## The invariant -/

/-- What a join knows at each of its points. -/
def JoinThread.Sound (t : JoinThread P) (w : AccessWorld P) : Prop :=
  match t.point with
  | .lookup => t.effects = {}
  | .check invite => t.effects = {} ∧ RoleFrom invite.role invite.createdBy invite.vaultId w
  | .consume invite _ => t.effects = {} ∧ RoleFrom invite.role invite.createdBy invite.vaultId w
  | .createUser invite _ => t.effects = { consumed := true } ∧
      RoleFrom invite.role invite.createdBy invite.vaultId w
  | .createDevice invite _ => t.effects = { consumed := true, user := true } ∧
      RoleFrom invite.role invite.createdBy invite.vaultId w
  | .addMember invite => t.effects = { consumed := true, user := true, device := true } ∧
      RoleFrom invite.role invite.createdBy invite.vaultId w
  | .returned _ => t.AllOrNothing ∧ t.MemberSound w

/-- What an invite knows before its insert: its caller is a member with the role it passed. -/
def InviteThread.Sound (t : InviteThread) (w : AccessWorld P) : Prop :=
  ∀ caller expiresAt, t.point = .insert caller expiresAt →
    ∃ m, w.member? caller.userId caller.vaultId = some m ∧
      Role.fromStr m.role = some caller.role

/-- A join with the code that has consumed a use. -/
def JoinThread.Consumed (code : String) (t : JoinThread P) : Bool :=
  t.req.inviteCode = code && t.effects.consumed

structure Inv (start : AccessWorld P) (s : Admission P) : Prop where
  unique : (s.world.inviteCodes.map (·.code)).Nodup
  counted : ∀ r ∈ s.world.inviteCodes,
    (s.joins.countP (JoinThread.Consumed r.code) : ℤ) ≤ r.usedCount ∧ 0 ≤ r.usedCount ∧
      r.usedCount ≤ max r.maxUses 0
  roles : ∀ r ∈ s.world.inviteCodes, RoleFrom r.role r.createdBy r.vaultId s.world
  known : ∀ t ∈ s.joins, t.effects.consumed = true →
    t.req.inviteCode ∈ s.world.inviteCodes.map (·.code)
  joins : ∀ t ∈ s.joins, t.Sound s.world
  invites : ∀ t ∈ s.invites, t.Sound s.world
  members : start.vault.db.vaultMembers <+: s.world.vault.db.vaultMembers
  devices : start.vault.db.devices <+: s.world.vault.db.devices

/-- The invariant gives the promises. -/
theorem Inv.admits {start : AccessWorld P} {s : Admission P} (h : Inv start s) :
    Admits start s := by
  have hreturned : ∀ t ∈ s.joins, ∀ outcome, t.point = .returned outcome →
      t.AllOrNothing ∧ t.MemberSound s.world := by
    intro t ht outcome hpoint
    have hsound := h.joins t ht
    rw [JoinThread.Sound, hpoint] at hsound
    exact hsound
  constructor
  · intro r hr
    have hle : s.joins.countP (JoinThread.Admitted r.code) ≤
        s.joins.countP (JoinThread.Consumed r.code) := by
      apply List.countP_mono_left
      intro t ht hadmitted
      simp only [JoinThread.Admitted, Bool.and_eq_true] at hadmitted
      obtain ⟨hcode, hok⟩ := hadmitted
      cases hpoint : t.point with
      | returned outcome =>
        rw [hpoint] at hok
        rcases (hreturned t ht outcome hpoint).1 outcome hpoint with ⟨-, heffects⟩ | ⟨hno, -⟩
        · simp [JoinThread.Consumed, heffects, hcode]
        · simp only [hno] at hok
          cases hok
      | _ =>
        rw [hpoint] at hok
        cases hok
    have hcounted := h.counted r hr
    omega
  · intro t ht hmember
    have hsound := h.joins t ht
    cases hpoint : t.point with
    | returned outcome => exact (hreturned t ht outcome hpoint).2 hmember
    | lookup =>
      rw [JoinThread.Sound, hpoint] at hsound
      rw [hsound] at hmember
      cases hmember
    | _ =>
      rw [JoinThread.Sound, hpoint] at hsound
      rw [hsound.1] at hmember
      cases hmember
  · intro t ht outcome hpoint
    exact (hreturned t ht outcome hpoint).1 outcome hpoint
  · exact h.members
  · exact h.devices

/-! ## What lasts -/

/-- Members and devices are only added. -/
structure Grows (w w' : AccessWorld P) : Prop where
  members : w.vault.db.vaultMembers <+: w'.vault.db.vaultMembers
  devices : w.vault.db.devices <+: w'.vault.db.devices

section Grows

variable {w w' : AccessWorld P}

theorem Grows.refl (w : AccessWorld P) : Grows w w := ⟨List.prefix_rfl, List.prefix_rfl⟩

/-- A member that was found is found again. -/
theorem Grows.member? (h : Grows w w') {userId vaultId : String} {m : VaultMemberRecord}
    (hm : w.member? userId vaultId = some m) : w'.member? userId vaultId = some m := by
  obtain ⟨added, hadded⟩ := h.members
  unfold AccessWorld.member? at hm ⊢
  rw [← hadded, List.find?_append, hm]
  rfl

theorem Grows.roleFrom (h : Grows w w') {role createdBy vaultId : String}
    (hrole : RoleFrom role createdBy vaultId w) : RoleFrom role createdBy vaultId w' := by
  obtain ⟨r, m, inviter, hr, hm, hinviter, hsat⟩ := hrole
  exact ⟨r, m, inviter, hr, h.member? hm, hinviter, hsat⟩

theorem Grows.memberSound (h : Grows w w') {t : JoinThread P} (ht : t.MemberSound w) :
    t.MemberSound w' := by
  intro hmember
  obtain ⟨m, hm, huser, inviter, hinviter, hrole⟩ := ht hmember
  exact ⟨m, h.members.subset hm, huser, inviter, hinviter, h.roleFrom hrole⟩

theorem Grows.joinSound (h : Grows w w') {t : JoinThread P} (ht : t.Sound w) : t.Sound w' := by
  unfold JoinThread.Sound at ht ⊢
  cases hpoint : t.point with
  | lookup =>
    simp only [hpoint] at ht ⊢
    exact ht
  | returned outcome =>
    simp only [hpoint] at ht ⊢
    exact ⟨ht.1, h.memberSound ht.2⟩
  | _ =>
    simp only [hpoint] at ht ⊢
    exact ⟨ht.1, h.roleFrom ht.2⟩

theorem Grows.inviteSound (h : Grows w w') {t : InviteThread} (ht : t.Sound w) :
    t.Sound w' := by
  intro caller expiresAt hpoint
  obtain ⟨m, hm, hrole⟩ := ht caller expiresAt hpoint
  exact ⟨m, h.member? hm, hrole⟩

end Grows

/-! ## The statements of the inserts -/

/-- An insert that is accepted writes its row. -/
theorem run_insert_of_isOk {fault : Bool} {refused : AccessWorld P → Option DbError}
    {upd : AccessWorld P → AccessWorld P} {w : AccessWorld P}
    (h : ((faulty fault (insertRow refused upd)).run w).1.isOk = true) :
    refused w = none ∧ ((faulty fault (insertRow refused upd)).run w).2 = upd w := by
  cases fault with
  | true => cases h
  | false =>
    simp only [faulty, Bool.false_eq_true, if_false, insertRow, Prog.run_execReturning_bind]
      at h ⊢
    cases hrefused : refused w with
    | none => exact ⟨rfl, rfl⟩
    | some e =>
      rw [hrefused] at h
      cases h

/-! ## One step of a join -/

section Step

variable {start : AccessWorld P} {s : Admission P}

/-- A join that goes on with the codes as they were and the use it had or had not taken. -/
theorem Inv.setJoin (h : Inv start s) {i : ℕ} {t t' : JoinThread P} {w' : AccessWorld P}
    (hi : s.joins[i]? = some t) (hgrows : Grows s.world w')
    (hcodes : w'.inviteCodes = s.world.inviteCodes) (hreq : t'.req = t.req)
    (hconsumed : t'.effects.consumed = t.effects.consumed) (hsound : t'.Sound w') :
    Inv start { s with world := w', joins := s.joins.set i t' } := by
  have hcount : ∀ code, (s.joins.set i t').countP (JoinThread.Consumed code) =
      s.joins.countP (JoinThread.Consumed code) := by
    intro code
    have hsame : JoinThread.Consumed code t' = JoinThread.Consumed code t := by
      rw [JoinThread.Consumed, JoinThread.Consumed, hreq, hconsumed]
    have hset := Threads.countP_set (JoinThread.Consumed code) t' hi
    rw [hsame] at hset
    exact Nat.add_right_cancel hset
  constructor
  · rw [hcodes]
    exact h.unique
  · intro r hr
    rw [hcodes] at hr
    rw [hcount]
    exact h.counted r hr
  · intro r hr
    rw [hcodes] at hr
    exact hgrows.roleFrom (h.roles r hr)
  · intro u hu hdone
    rw [hcodes]
    rcases List.mem_or_eq_of_mem_set hu with hu | rfl
    · exact h.known u hu hdone
    · rw [hreq]
      exact h.known t (List.mem_of_getElem? hi) (hconsumed.symm.trans hdone)
  · intro u hu
    rcases List.mem_or_eq_of_mem_set hu with hu | rfl
    · exact hgrows.joinSound (h.joins u hu)
    · exact hsound
  · intro u hu
    exact hgrows.inviteSound (h.invites u hu)
  · exact h.members.trans hgrows.members
  · exact h.devices.trans hgrows.devices

/-- The error returns of a join: it has done nothing. -/
theorem sound_error {t : JoinThread P} (w : AccessWorld P) (e : ApiError)
    (heffects : t.effects = {}) :
    ({ t with point := .returned (.error e) } : JoinThread P).Sound w := by
  constructor
  · intro outcome hpoint
    cases hpoint
    exact .inr ⟨rfl, heffects⟩
  · intro hmember
    have hnone : t.effects.member = true := hmember
    rw [heffects] at hnone
    cases hnone

/-- The consumption takes one use of the code, and the row counts it. -/
theorem Inv.consume (h : Inv start s) {i : ℕ} {t : JoinThread P} {invite : InviteCodeRecord}
    {publicKey : P.Key} (hi : s.joins[i]? = some t) (hpoint : t.point = .consume invite publicKey)
    (hfault : t.faults.consume = false)
    (hleft : s.world.inviteCodes.any (Db.hasUseLeft t.req.inviteCode) = true) :
    Inv start
      { s with
        world := (t.next s.world).2
        joins := s.joins.set i (t.next s.world).1 } := by
  have hsound := h.joins t (List.mem_of_getElem? hi)
  rw [JoinThread.Sound, hpoint] at hsound
  have hrun : t.consumeStmt.run s.world = (.ok true,
      { s.world with
        inviteCodes := updateWhere (Db.hasUseLeft t.req.inviteCode)
          (fun r => { r with usedCount := r.usedCount + 1 }) s.world.inviteCodes }) := by
    rw [← hleft, JoinThread.consumeStmt, hfault]
    rfl
  obtain ⟨t', hnext, hreq, heffects, hpoint'⟩ : ∃ t', t.next s.world =
      (t', { s.world with
        inviteCodes := updateWhere (Db.hasUseLeft t.req.inviteCode)
          (fun r => { r with usedCount := r.usedCount + 1 }) s.world.inviteCodes }) ∧
      t'.req = t.req ∧ t'.effects = { t.effects with consumed := true } ∧
      t'.point = .createUser invite publicKey := by
    rw [JoinThread.next, hpoint]
    simp only [hrun]
    exact ⟨_, rfl, rfl, rfl, rfl⟩
  obtain ⟨left, hleftMem, hleftUse⟩ := List.any_eq_true.mp hleft
  simp only [Db.hasUseLeft, Bool.and_eq_true, decide_eq_true_eq] at hleftUse
  rw [hnext]
  have hcodes : (updateWhere (Db.hasUseLeft t.req.inviteCode)
      (fun r : InviteCodeRecord => { r with usedCount := r.usedCount + 1 })
      s.world.inviteCodes).map (·.code) = s.world.inviteCodes.map (·.code) := by
    apply map_updateWhere
    intro r
    rfl
  have hgrows : Grows s.world
      { s.world with
        inviteCodes := updateWhere (Db.hasUseLeft t.req.inviteCode)
          (fun r => { r with usedCount := r.usedCount + 1 }) s.world.inviteCodes } :=
    ⟨List.prefix_rfl, List.prefix_rfl⟩
  constructor
  · simp only [hcodes]
    exact h.unique
  · intro r hr
    obtain ⟨r₀, hr₀, rfl⟩ := mem_updateWhere.mp hr
    have hcounted := h.counted r₀ hr₀
    by_cases huse : Db.hasUseLeft t.req.inviteCode r₀ = true
    · -- the row of the code counts one use more, and one join more may have consumed
      rw [if_pos huse]
      simp only [Db.hasUseLeft, Bool.and_eq_true, decide_eq_true_eq] at huse
      have hle : (s.joins.set i t').countP (JoinThread.Consumed r₀.code) ≤
          s.joins.countP (JoinThread.Consumed r₀.code) + 1 := by
        have hset := Threads.countP_set (JoinThread.Consumed r₀.code) t' hi
        have hone := Bool.toNat_le (JoinThread.Consumed r₀.code t')
        omega
      simp only
      omega
    · -- another code: its joins are those it had
      rw [if_neg huse]
      have hother : r₀.code ≠ t.req.inviteCode := by
        intro hcode
        have hsame : r₀ = left :=
          List.inj_on_of_nodup_map h.unique hr₀ hleftMem (hcode.trans hleftUse.1.symm)
        apply huse
        rw [hsame, Db.hasUseLeft]
        simp [hleftUse]
      have hsame : JoinThread.Consumed r₀.code t' = JoinThread.Consumed r₀.code t := by
        simp [JoinThread.Consumed, hreq, Ne.symm hother]
      have hset := Threads.countP_set (JoinThread.Consumed r₀.code) t' hi
      rw [hsame] at hset
      simp only
      omega
  · intro r hr
    obtain ⟨r₀, hr₀, rfl⟩ := mem_updateWhere.mp hr
    have hrole := hgrows.roleFrom (h.roles r₀ hr₀)
    split <;> exact hrole
  · intro u hu hdone
    simp only [hcodes]
    rcases List.mem_or_eq_of_mem_set hu with hu | rfl
    · exact h.known u hu hdone
    · rw [hreq, ← hleftUse.1]
      exact List.mem_map_of_mem hleftMem
  · intro u hu
    rcases List.mem_or_eq_of_mem_set hu with hu | rfl
    · exact hgrows.joinSound (h.joins u hu)
    · rw [JoinThread.Sound, hpoint']
      refine ⟨?_, hgrows.roleFrom hsound.2⟩
      rw [heffects, hsound.1]
  · intro u hu
    exact hgrows.inviteSound (h.invites u hu)
  · exact h.members
  · exact h.devices

/-- A guarded step of a join keeps the invariant. -/
theorem Inv.stepJoin (h : Inv start s) {i : ℕ} {t : JoinThread P} (hi : s.joins[i]? = some t)
    (hguard : AdmissionOp.JoinGuard t s.world) :
    Inv start
      { s with
        world := (t.next s.world).2
        joins := s.joins.set i (t.next s.world).1 } := by
  have hsound := h.joins t (List.mem_of_getElem? hi)
  have hrefl := Grows.refl s.world
  cases hpoint : t.point with
  | lookup =>
    rw [JoinThread.Sound, hpoint] at hsound
    rw [JoinThread.next, hpoint]
    cases hfault : t.faults.lookup with
    | true =>
      simp only [JoinThread.lookupStmt, hfault, faulty, if_true, Prog.run_fail]
      exact h.setJoin hi hrefl rfl rfl rfl (sound_error _ _ hsound)
    | false =>
      simp only [JoinThread.lookupStmt, hfault, faulty, Bool.false_eq_true, if_false,
        Db.getInviteCode, Prog.run_query]
      cases hfind : s.world.inviteCodes.find? (·.code = t.req.inviteCode) with
      | none =>
        simp only
        exact h.setJoin hi hrefl rfl rfl rfl (sound_error _ _ hsound)
      | some invite =>
        simp only
        have hmem := List.mem_of_find?_eq_some hfind
        exact h.setJoin hi hrefl rfl rfl rfl ⟨hsound, h.roles invite hmem⟩
  | check invite =>
    rw [JoinThread.Sound, hpoint] at hsound
    rw [JoinThread.next, hpoint]
    cases hok : t.admissible invite s.world.now with
    | error e =>
      simp only [hok]
      exact h.setJoin hi hrefl rfl rfl rfl (sound_error _ _ hsound.1)
    | ok publicKey =>
      simp only [hok]
      exact h.setJoin hi hrefl rfl rfl rfl ⟨hsound.1, hsound.2⟩
  | consume invite publicKey =>
    rw [JoinThread.Sound, hpoint] at hsound
    cases hfault : t.faults.consume with
    | true =>
      rw [JoinThread.next, hpoint]
      simp only [JoinThread.consumeStmt, hfault, faulty, if_true, Prog.run_fail]
      exact h.setJoin hi hrefl rfl rfl rfl (sound_error _ _ hsound.1)
    | false =>
      rw [AdmissionOp.JoinGuard, hpoint] at hguard
      exact h.consume hi hpoint hfault (hguard hfault)
  | createUser invite publicKey =>
    rw [JoinThread.Sound, hpoint] at hsound
    rw [AdmissionOp.JoinGuard, hpoint] at hguard
    have hstate := (run_insert_of_isOk hguard).2
    have hgrows : Grows s.world (t.createUserStmt.run s.world).2 := by
      rw [JoinThread.createUserStmt, Db.createUser, hstate]
      exact ⟨List.prefix_rfl, List.prefix_rfl⟩
    have hcodes : (t.createUserStmt.run s.world).2.inviteCodes = s.world.inviteCodes := by
      rw [JoinThread.createUserStmt, Db.createUser, hstate]
      rfl
    obtain ⟨t', hnext, hreq, heffects, hpoint'⟩ : ∃ t', t.next s.world =
        (t', (t.createUserStmt.run s.world).2) ∧ t'.req = t.req ∧
        t'.effects = { t.effects with user := true } ∧ t'.point = .createDevice invite publicKey := by
      rw [JoinThread.next, hpoint]
      simp only [hguard]
      exact ⟨_, rfl, rfl, rfl, rfl⟩
    rw [hnext]
    apply h.setJoin hi hgrows hcodes hreq
    · rw [heffects]
    · rw [JoinThread.Sound, hpoint']
      refine ⟨?_, hgrows.roleFrom hsound.2⟩
      rw [heffects, hsound.1]
  | createDevice invite publicKey =>
    rw [JoinThread.Sound, hpoint] at hsound
    rw [AdmissionOp.JoinGuard, hpoint] at hguard
    have hstate := (run_insert_of_isOk hguard).2
    have hgrows : Grows s.world ((t.createDeviceStmt publicKey).run s.world).2 := by
      rw [JoinThread.createDeviceStmt, Db.createDevice, hstate]
      exact ⟨List.prefix_rfl, List.prefix_append _ _⟩
    have hcodes : ((t.createDeviceStmt publicKey).run s.world).2.inviteCodes = s.world.inviteCodes := by
      rw [JoinThread.createDeviceStmt, Db.createDevice, hstate]
      rfl
    obtain ⟨t', hnext, hreq, heffects, hpoint'⟩ : ∃ t', t.next s.world =
        (t', ((t.createDeviceStmt publicKey).run s.world).2) ∧ t'.req = t.req ∧
        t'.effects = { t.effects with device := true } ∧ t'.point = .addMember invite := by
      rw [JoinThread.next, hpoint]
      simp only [hguard]
      exact ⟨_, rfl, rfl, rfl, rfl⟩
    rw [hnext]
    apply h.setJoin hi hgrows hcodes hreq
    · rw [heffects]
    · rw [JoinThread.Sound, hpoint']
      refine ⟨?_, hgrows.roleFrom hsound.2⟩
      rw [heffects, hsound.1]
  | addMember invite =>
    rw [JoinThread.Sound, hpoint] at hsound
    rw [AdmissionOp.JoinGuard, hpoint] at hguard
    have hstate := (run_insert_of_isOk hguard).2
    have hgrows : Grows s.world ((t.addMemberStmt invite).run s.world).2 := by
      rw [JoinThread.addMemberStmt, Db.addVaultMember, hstate]
      exact ⟨List.prefix_append _ _, List.prefix_rfl⟩
    have hcodes : ((t.addMemberStmt invite).run s.world).2.inviteCodes =
        s.world.inviteCodes := by
      rw [JoinThread.addMemberStmt, Db.addVaultMember, hstate]
      rfl
    obtain ⟨t', hnext, hreq, heffects, hpoint'⟩ : ∃ t', t.next s.world =
        (t', ((t.addMemberStmt invite).run s.world).2) ∧ t'.req = t.req ∧
        t'.effects = { t.effects with member := true } ∧
        t'.point = .returned (.ok (t.response invite)) := by
      rw [JoinThread.next, hpoint]
      simp only [hguard]
      exact ⟨_, rfl, rfl, rfl, rfl⟩
    rw [hnext]
    apply h.setJoin hi hgrows hcodes hreq
    · rw [heffects]
    · rw [JoinThread.Sound, hpoint']
      constructor
      · intro outcome hreturned
        rw [hpoint'] at hreturned
        cases hreturned
        refine .inl ⟨rfl, ?_⟩
        rw [heffects, hsound.1]
      · intro _
        have hrole := hgrows.roleFrom hsound.2
        rw [JoinThread.addMemberStmt, Db.addVaultMember, hstate] at hrole ⊢
        rw [hreq]
        exact ⟨_, List.mem_append_right _ (List.mem_singleton_self _), rfl, _, rfl, hrole⟩
  | returned outcome =>
    rw [JoinThread.next, hpoint]
    exact h.setJoin hi hrefl rfl rfl rfl hsound

/-- An invite that goes on without a row. -/
theorem Inv.setInvite (h : Inv start s) {i : ℕ} {t' : InviteThread} (hsound : t'.Sound s.world) :
    Inv start { s with invites := s.invites.set i t' } := by
  refine ⟨h.unique, h.counted, h.roles, h.known, h.joins, ?_, h.members, h.devices⟩
  intro u hu
  rcases List.mem_or_eq_of_mem_set hu with hu | rfl
  · exact h.invites u hu
  · exact hsound

/-- A guarded step of an invite keeps the invariant. -/
theorem Inv.stepInvite (h : Inv start s) {i : ℕ} {t : InviteThread}
    (hi : s.invites[i]? = some t) (hguard : AdmissionOp.InviteGuard t) :
    Inv start
      { s with
        world := (t.next s.world).2
        invites := s.invites.set i (t.next s.world).1 } := by
  have hsound := h.invites t (List.mem_of_getElem? hi)
  cases hpoint : t.point with
  | gate =>
    rw [InviteThread.next, hpoint]
    cases hrun : (Acl.requireRole t.headers .admin).run s.world with
    | mk outcome world =>
      cases outcome with
      | error e =>
        simp only
        apply h.setInvite
        intro caller expiresAt hinsert
        cases hinsert
      | ok caller =>
        simp only
        apply h.setInvite
        intro caller' expiresAt hinsert
        cases hinsert
        obtain ⟨m, hm, hrole⟩ := (Acl.passes_of_requireRole hrun).1.member
        exact ⟨m, hm, hrole⟩
  | insert caller expiresAt =>
    rw [AdmissionOp.InviteGuard, hpoint] at hguard
    obtain ⟨role, hrole, hsat⟩ := hguard
    obtain ⟨m, hm, hcaller⟩ := hsound caller expiresAt hpoint
    rw [InviteThread.next, hpoint]
    simp only
    have hdone : ∀ (ok : Bool) (w : AccessWorld P),
        ({ t with point := .returned ok } : InviteThread).Sound w := by
      intro ok w caller' expiresAt' hinsert
      cases hinsert
    cases hrefused : Db.inviteRefused t.code caller.userId s.world with
    | some e =>
      have hrun : (t.insertStmt caller expiresAt).run s.world = (.error e, s.world) := by
        simp [InviteThread.insertStmt, Db.createInviteCode, insertRow, hrefused]
      rw [hrun]
      exact h.setInvite (hdone _ _)
    | none =>
      have hfresh : t.code ∉ s.world.inviteCodes.map (·.code) := by
        unfold Db.inviteRefused at hrefused
        by_cases hused : s.world.inviteCodes.any (·.code = t.code) = true
        · rw [if_pos hused] at hrefused
          cases hrefused
        · simpa using hused
      have hrun : (t.insertStmt caller expiresAt).run s.world = (.ok (),
          { s.world with
            inviteCodes := s.world.inviteCodes ++
              [{ code := t.code, vaultId := caller.vaultId, createdBy := caller.userId,
                 role := t.role, maxUses := t.req.maxUses.getD 1, usedCount := 0, expiresAt,
                 createdAt := s.world.now }] }) := by
        simp [InviteThread.insertStmt, Db.createInviteCode, insertRow, hrefused]
      rw [hrun]
      have hnone : s.joins.countP (JoinThread.Consumed t.code) = 0 := by
        rw [List.countP_eq_zero]
        intro u hu hconsumed
        simp only [JoinThread.Consumed, Bool.and_eq_true, decide_eq_true_eq] at hconsumed
        apply hfresh
        rw [← hconsumed.1]
        exact h.known u hu hconsumed.2
      have hgrows : Grows s.world
          { s.world with
            inviteCodes := s.world.inviteCodes ++
              [{ code := t.code, vaultId := caller.vaultId, createdBy := caller.userId,
                 role := t.role, maxUses := t.req.maxUses.getD 1, usedCount := 0, expiresAt,
                 createdAt := s.world.now }] } := ⟨List.prefix_rfl, List.prefix_rfl⟩
      constructor
      · apply nodup_append_fresh h.unique
        intro r hr hcode
        exact hfresh (List.mem_map.mpr ⟨r, hr, hcode⟩)
      · intro r hr
        rcases List.mem_append.mp hr with hr | hr
        · exact h.counted r hr
        · rw [List.mem_singleton.mp hr]
          simp only [hnone]
          omega
      · intro r hr
        rcases List.mem_append.mp hr with hr | hr
        · exact hgrows.roleFrom (h.roles r hr)
        · rw [List.mem_singleton.mp hr]
          exact ⟨role, m, caller.role, hrole, hm, hcaller, hsat⟩
      · intro u hu hdone
        simp only [List.map_append]
        exact List.mem_append_left _ (h.known u hu hdone)
      · intro u hu
        exact hgrows.joinSound (h.joins u hu)
      · intro u hu
        rcases List.mem_or_eq_of_mem_set hu with hu | rfl
        · exact hgrows.inviteSound (h.invites u hu)
        · exact hdone _ _
      · exact h.members
      · exact h.devices
  | returned ok =>
    rw [InviteThread.next, hpoint]
    exact h.setInvite hsound

end Step

/-- A guarded operation keeps the invariant. -/
theorem inv_step {start : AccessWorld P} (op : AdmissionOp P) (s : Admission P)
    (h : Inv start s) (hguard : op.Guard s) : Inv start (op.step s) := by
  cases op with
  | tick seconds =>
    have hgrows : Grows s.world { s.world with vault.now := s.world.vault.now + seconds } :=
      ⟨List.prefix_rfl, List.prefix_rfl⟩
    constructor
    · exact h.unique
    · exact h.counted
    · exact fun r hr => hgrows.roleFrom (h.roles r hr)
    · exact h.known
    · exact fun t ht => hgrows.joinSound (h.joins t ht)
    · exact fun t ht => hgrows.inviteSound (h.invites t ht)
    · exact h.members
    · exact h.devices
  | openInvite headers req code =>
    refine ⟨h.unique, h.counted, h.roles, h.known, h.joins, ?_, h.members, h.devices⟩
    intro t ht
    rcases List.mem_append.mp ht with ht | ht
    · exact h.invites t ht
    · rw [List.mem_singleton.mp ht]
      intro caller expiresAt hpoint
      cases hpoint
  | openJoin faults req =>
    refine ⟨h.unique, ?_, h.roles, ?_, ?_, h.invites, h.members, h.devices⟩
    · intro r hr
      have hnew : JoinThread.Consumed r.code ({ req, faults } : JoinThread P) = false := by
        simp [JoinThread.Consumed]
      simp only [AdmissionOp.step, List.countP_append, List.countP_singleton, hnew,
        Bool.false_eq_true, if_false, Nat.add_zero]
      exact h.counted r hr
    · intro t ht hdone
      rcases List.mem_append.mp ht with ht | ht
      · exact h.known t ht hdone
      · rw [List.mem_singleton.mp ht] at hdone
        cases hdone
    · intro t ht
      rcases List.mem_append.mp ht with ht | ht
      · exact h.joins t ht
      · rw [List.mem_singleton.mp ht]
        rfl
  | stepInvite i =>
    rw [AdmissionOp.step]
    cases hi : s.invites[i]? with
    | none => exact h
    | some t => exact h.stepInvite hi (hguard t hi)
  | stepJoin i =>
    rw [AdmissionOp.step]
    cases hi : s.joins[i]? with
    | none => exact h
    | some t => exact h.stepJoin hi (hguard t hi)

/-- Sound codes without requests in flight satisfy the invariant. -/
theorem CodesSound.inv {start : AccessWorld P} (h : CodesSound start) :
    Inv start { world := start } := by
  constructor
  · exact h.unique
  · intro r hr
    simpa using h.counted r hr
  · exact h.roles
  · exact fun t ht => absurd ht List.not_mem_nil
  · exact fun t ht => absurd ht List.not_mem_nil
  · exact fun t ht => absurd ht List.not_mem_nil
  · exact List.prefix_rfl
  · exact List.prefix_rfl

/-- In every interleaving of invites and joins whose invites ask for a role of their caller's
rank at most, whose consumptions find a use left and whose inserts are accepted, the promises
hold in every state. -/
theorem admits_of_guarded {start : AccessWorld P} (hcodes : CodesSound start)
    (ops : List (AdmissionOp P))
    (hguard : guarded AdmissionOp.step AdmissionOp.Guard ops { world := start }) :
    ∀ s ∈ states AdmissionOp.step ops { world := start }, Admits start s := by
  intro s hs
  apply Inv.admits
  exact inv_of_guarded AdmissionOp.step (fun _ _ => True) AdmissionOp.Guard (Inv start)
    (fun op t ht _ hop => inv_step op t ht hop) hcodes.inv
    (guarded_of_forall _ (fun _ _ => trivial) ops _) hguard s hs

/-! ## One code and two joins -/

def inviteOnce : Api.InviteRequest := { role := none, maxUses := some 1, expiresInSecs := none }

def joinFrom (deviceId : String) : Api.JoinRequest symbolic :=
  { inviteCode := "code", deviceId, deviceName := deviceId, publicKey := some (.random 7) }

/-- The owner invites one member. -/
def invited : List (AdmissionOp symbolic) :=
  [.openInvite (.ofToken "alice-token") inviteOnce "code", .stepInvite 0, .stepInvite 0]

/-- A join that runs alone. -/
def joinAlone : List (AdmissionOp symbolic) :=
  [.openJoin {} (joinFrom "tablet"), .stepJoin 0, .stepJoin 0, .stepJoin 0, .stepJoin 0,
    .stepJoin 0, .stepJoin 0]

theorem team_codesSound : CodesSound team :=
  ⟨by decide, fun r hr => absurd hr List.not_mem_nil, fun r hr => absurd hr List.not_mem_nil⟩

/-- One join on one code keeps the promises. -/
theorem joinAlone_admits : CodesSound team ∧
    ∀ s ∈ states AdmissionOp.step (invited ++ joinAlone) { world := team }, Admits team s := by
  refine ⟨team_codesSound, ?_⟩
  apply admits_of_guarded team_codesSound
  refine ⟨trivial, ?_, ?_, trivial, ?_, ?_, ?_, ?_, ?_, ?_, trivial⟩
  all_goals
    intro t ht
    cases ht
  · trivial
  · exact ⟨.member, rfl, rfl⟩
  · trivial
  · trivial
  · exact fun _ => rfl
  · rfl
  · rfl
  · rfl

/-- Two joins that both look the code up before either consumes it. -/
def joinsTogether : List (AdmissionOp symbolic) :=
  [.openJoin {} (joinFrom "tablet"), .openJoin {} (joinFrom "watch"),
    .stepJoin 0, .stepJoin 0, .stepJoin 1, .stepJoin 1,
    .stepJoin 0, .stepJoin 0, .stepJoin 0, .stepJoin 0,
    .stepJoin 1, .stepJoin 1, .stepJoin 1, .stepJoin 1]

/-- The state after both joins have returned. -/
def bothJoined : Admission symbolic :=
  (invited ++ joinsTogether).foldl (fun s op => op.step s) { world := team }

/-- Both joins of a code with one use return with success. -/
theorem joinsTogether_exceed :
    ¬ ∀ (start : AccessWorld symbolic) (ops : List (AdmissionOp symbolic)), CodesSound start →
      ∀ s ∈ states AdmissionOp.step ops { world := start }, Admits start s := by
  intro hall
  have hadmits : Admits team bothJoined :=
    hall team (invited ++ joinsTogether) team_codesSound _ (mem_states_last _ _ _)
  have hrow : bothJoined.world.inviteCodes =
      [{ code := "code", vaultId := "vault", createdBy := "alice", role := "member",
         maxUses := 1, usedCount := 1, expiresAt := none, createdAt := 1000 }] := rfl
  have huses := hadmits.uses _ (by rw [hrow]; exact List.mem_singleton_self _)
  have hcount : bothJoined.joins.countP (JoinThread.Admitted "code") = 2 := rfl
  simp only [hcount] at huses
  omega

end Joining

end OmniDrive
