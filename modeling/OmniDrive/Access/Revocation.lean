import OmniDrive.Access.SessionFrame
import OmniDrive.Crypto.Symbolic
import OmniDrive.Library.GuardedRuns

/-!
# What a revocation cuts off

Revoking a device or removing its user writes the device and membership rows and leaves the
sessions alone, and no check of a session looks at the device. So a revoked device is cut off
exactly when its sessions had run out already and the installation is not the device itself,
which an unlock would give a new session. Membership, on the other hand, is checked at every
request.
-/

namespace OmniDrive

open StatementProgram GuardedRuns Tables

variable {P : Primitives}

/-- What happens to an installation: time passes, requests arrive, sessions are created. -/
inductive AccessOp (P : Primitives) where
  | tick (seconds : ℕ)
  | request (headers : HeaderMap) (minRole : Role)
  | renew (headers : HeaderMap)
  | logout (headers : HeaderMap)
  /-- An unlock, the publication of a tray session or the end of an onboarding. -/
  | localSession (token : String)
  | oauthLogin (info : Api.UserInfo) (newUserId token webId : String)
  | cleanup
  | invite (headers : HeaderMap) (req : Api.InviteRequest) (code : String)
  | join (faults : Api.JoinFaults) (req : Api.JoinRequest P)
  | revokeDevice (headers : HeaderMap) (deviceId : String)
  | removeMember (headers : HeaderMap) (userId : String)
  /-- Any other request; it works on the key store and its tables. -/
  | keyStore (upd : VaultWorld P → VaultWorld P)

namespace AccessOp

def step : AccessOp P → AccessWorld P → AccessWorld P
  | tick seconds, w => { w with vault := { w.vault with now := w.vault.now + seconds } }
  | request headers minRole, w => ((Acl.requireRole headers minRole).run w).2
  | renew headers, w => ((Api.postAuthRenew headers).run w).2
  | logout headers, w => ((Api.postAuthLogout headers).run w).2
  | localSession token, w => ((Api.issueLocalSession token).run w).2
  | oauthLogin info newUserId token webId, w =>
    ((Api.getGoogleCallback info newUserId token webId).run w).2
  | cleanup, w => ((query Db.cleanupExpiredSessions).run w).2
  | invite headers req code, w => ((Api.postVaultInvite headers req code).run w).2
  | join faults req, w => ((Api.postVaultJoin faults req).run w).2
  | revokeDevice headers deviceId, w => ((Api.postRevokeDevice headers deviceId).run w).2
  | removeMember headers userId, w => ((Api.postRemoveMember headers userId).run w).2
  | keyStore upd, w => { w with vault := { upd w.vault with now := w.vault.now } }

/-- The random device id of a login in a browser is not the id of the device. -/
def DrawsOther (d : String) : AccessOp P → AccessWorld P → Prop
  | oauthLogin _ _ _ webId, _ => "web-" ++ webId ≠ d
  | _, _ => True

/-- The operation does not start a session on the installation of the device itself. -/
def Elsewhere (d : String) : AccessOp P → AccessWorld P → Prop
  | localSession token, w => ∀ device, w.localDeviceId? = some d → w.device? d = some device →
      Db.sessionRefused token device.userId w ≠ none
  | _, _ => True

end AccessOp

/-- The device has no access: none of its sessions passes a check, and its sessions are those it
had, with the expiry they had. -/
structure CutOff (d : String) (old : List UserSession) (w : AccessWorld P) : Prop where
  authenticate : ∀ headers s w',
    (Acl.authenticateSession headers).run w = (.ok s, w') → s.deviceId ≠ d
  session : ∀ headers s w', (Acl.requireSession headers).run w = (.ok s, w') → s.deviceId ≠ d
  role : ∀ headers minRole caller w',
    (Acl.requireRole headers minRole).run w = (.ok caller, w') → caller.deviceId ≠ d
  sessions : ∀ s ∈ w.sessions, s.deviceId = d → s ∈ old

/-- Whoever passes a role check is a member of the vault. -/
def MembersOnly (w : AccessWorld P) : Prop :=
  ∀ headers minRole caller w', (Acl.requireRole headers minRole).run w = (.ok caller, w') →
    ∃ m ∈ w.vault.db.vaultMembers, m.userId = caller.userId ∧ w.vaultId? = some m.vaultId

/-- The device, or the user that owns it, has been revoked or removed with success. -/
def RevokedOk (d : String) (w w' : AccessWorld P) : Prop :=
  (∃ headers r, (Api.postRevokeDevice headers d).run w = (.ok r, w')) ∨
    ∃ headers userId r, (∃ device ∈ w.vault.db.devices, device.deviceId = d ∧
      device.userId = userId) ∧ (Api.postRemoveMember headers userId).run w = (.ok r, w')

/-- No session of the device is live, and none was added or extended. -/
structure Dormant (d : String) (old : List UserSession) (w : AccessWorld P) : Prop where
  expired : ∀ s ∈ w.sessions, s.deviceId = d → s.expiresAt ≤ w.now
  known : ∀ s ∈ w.sessions, s.deviceId = d → s ∈ old

/-! ## States -/

section States

variable {d : String} {old : List UserSession} {w : AccessWorld P}

/-- The session a request bears is a live row. -/
theorem mem_of_bearerSession {headers : HeaderMap} {s : UserSession}
    (h : Acl.bearerSession headers w = some s) : s ∈ w.sessions ∧ w.now < s.expiresAt := by
  obtain ⟨token, -, hlive⟩ := Option.bind_eq_some_iff.mp h
  have hmem := List.mem_of_find?_eq_some hlive
  have hp := List.find?_some hlive
  simp only [Bool.and_eq_true, decide_eq_true_eq] at hp
  exact ⟨hmem, hp.2⟩

/-- A device whose sessions are dormant has no access. -/
theorem Dormant.cutOff (h : Dormant d old w) : CutOff d old w := by
  have hdead : ∀ headers s, Acl.bearerSession headers w = some s → s.deviceId ≠ d := by
    intro headers s hs hd
    obtain ⟨hmem, hlive⟩ := mem_of_bearerSession hs
    have hexpired := h.expired s hmem hd
    omega
  constructor
  · intro headers s w' hrun
    exact hdead headers s (Acl.run_authenticateSession_eq_ok.mp hrun).1
  · intro headers s w' hrun
    exact hdead headers s (Acl.bearerSession_of_requireSession hrun).1
  · intro headers minRole caller w' hrun
    obtain ⟨hpasses, -⟩ := Acl.passes_of_requireRole hrun
    obtain ⟨s, hs, -, hdevice⟩ := hpasses.session
    rw [← hdevice]
    exact hdead headers s hs
  · exact h.known

/-- A token that names a live session of the device lets it in. -/
theorem CutOff.expired_of_live {token : String} {s : UserSession} (h : CutOff d old w)
    (hlive : Db.liveSession token w = some s) : s.deviceId ≠ d := by
  apply h.authenticate (.ofToken token) s w
  rw [Acl.run_authenticateSession_eq_ok, Acl.bearerSession, HeaderMap.bearer_ofToken,
    Option.bind_some]
  exact ⟨hlive, rfl⟩

/-- With a token for each session, a device without access has no live session. -/
theorem CutOff.expired (h : CutOff d old w) (htokens : (w.sessions.map (·.token)).Nodup) :
    ∀ s ∈ w.sessions, s.deviceId = d → s.expiresAt ≤ w.now := by
  intro s hs hd
  by_contra hlive
  have hfound : Db.liveSession s.token w = some s := by
    rw [Db.liveSession, List.find?_eq_some_iff_append]
    obtain ⟨before, after, hsplit⟩ := List.append_of_mem hs
    refine ⟨by simp; omega, before, after, hsplit, ?_⟩
    intro r hr
    rw [hsplit, List.map_append, List.map_cons, List.nodup_append] at htokens
    have hne : r.token ≠ s.token :=
      htokens.2.2 _ (List.mem_map_of_mem hr) _ (List.mem_cons_self ..)
    simp [hne]
  exact h.expired_of_live hfound hd

/-- Membership is looked up at every role check. -/
theorem membersOnly (w : AccessWorld P) : MembersOnly w := by
  intro headers minRole caller w' hrun
  obtain ⟨hpasses, -⟩ := Acl.passes_of_requireRole hrun
  obtain ⟨m, hm, -⟩ := hpasses.member
  have hp := List.find?_some hm
  simp only [Bool.and_eq_true, decide_eq_true_eq] at hp
  refine ⟨m, List.mem_of_find?_eq_some hm, hp.1, ?_⟩
  rw [hpasses.vault, hp.2]

end States

/-! ## One operation -/

section Step

variable {d : String} {old : List UserSession}

theorem dormant_vault (vault : VaultWorld P) (w : AccessWorld P) (hnow : vault.now = w.vault.now)
    (h : Dormant d old w) : Dormant d old { w with vault } := by
  constructor
  · intro s hs hd
    have hexpired := h.expired s hs hd
    rw [AccessWorld.now, ← hnow] at hexpired
    exact hexpired
  · exact h.known

theorem dormant_codes (codes : List InviteCodeRecord) (w : AccessWorld P) (h : Dormant d old w) :
    Dormant d old { w with inviteCodes := codes } := ⟨h.expired, h.known⟩

/-- Deleting sessions keeps the device dormant. -/
theorem dormant_deleteWhere (p : UserSession → Bool) (w : AccessWorld P) (h : Dormant d old w) :
    Dormant d old { w with sessions := deleteWhere p w.sessions } := by
  constructor
  · intro s hs
    exact h.expired s (mem_deleteWhere.mp hs).1
  · intro s hs
    exact h.known s (mem_deleteWhere.mp hs).1

/-- A renewal extends live sessions only. -/
theorem dormant_renew (token : String) (ttl : ℤ) (w : AccessWorld P) (h : Dormant d old w) :
    Dormant d old
      { w with
        sessions := updateWhere (fun s => s.token = token && w.now < s.expiresAt)
          (fun s => { s with expiresAt := w.now + ttl }) w.sessions } := by
  have hrow : ∀ s ∈ updateWhere (fun s => s.token = token && w.now < s.expiresAt)
      (fun s => { s with expiresAt := w.now + ttl }) w.sessions, s.deviceId = d →
      s ∈ w.sessions := by
    intro s hs hd
    obtain ⟨r, hr, rfl⟩ := mem_updateWhere.mp hs
    by_cases hlive : (decide (r.token = token) && decide (w.now < r.expiresAt)) = true
    · rw [if_pos hlive] at hd
      have hexpired := h.expired r hr hd
      simp only [Bool.and_eq_true, decide_eq_true_eq] at hlive
      omega
    · rw [if_neg hlive]
      exact hr
  constructor
  · intro s hs hd
    exact h.expired s (hrow s hs hd) hd
  · intro s hs hd
    exact h.known s (hrow s hs hd) hd

/-- A session for another device changes nothing for this one. -/
theorem dormant_append {session : UserSession} (hother : session.deviceId ≠ d)
    (w : AccessWorld P) (h : Dormant d old w) :
    Dormant d old { w with sessions := w.sessions ++ [session] } := by
  have hrow : ∀ s ∈ w.sessions ++ [session], s.deviceId = d → s ∈ w.sessions := by
    intro s hs hd
    rcases List.mem_append.mp hs with hs | hs
    · exact hs
    · rw [List.mem_singleton.mp hs] at hd
      exact absurd hd hother
  constructor
  · intro s hs hd
    exact h.expired s (hrow s hs hd) hd
  · intro s hs hd
    exact h.known s (hrow s hs hd) hd

theorem keeps_createUserSession {deviceId : String} (hother : deviceId ≠ d)
    (token userId : String) (ttl : ℤ) :
    (Db.createUserSession token userId deviceId ttl).Keeps (Dormant (P := P) d old) := by
  unfold Db.createUserSession
  apply Prog.Keeps.query_bind
  intro w _
  apply Prog.Keeps.bind (keeps_insertRow fun t ht => dormant_append hother t ht)
  intro _
  trivial

theorem keeps_postAuthRenew (headers : HeaderMap) :
    (Api.postAuthRenew headers).Keeps (Dormant (P := P) d old) := by
  unfold Api.postAuthRenew
  apply (keeps_requireSession headers).bind
  intro session
  apply Prog.Keeps.bind (keeps_query (Prog.Keeps.execReturning _ fun w hw =>
    dormant_renew session.token Db.sessionTtlSeconds w hw))
  intro renewed
  cases renewed with
  | false => trivial
  | true => exact Prog.Keeps.query _

theorem keeps_postAuthLogout (headers : HeaderMap) :
    (Api.postAuthLogout headers).Keeps (Dormant (P := P) d old) := by
  unfold Api.postAuthLogout
  apply (keeps_authenticateSession headers).bind
  intro session
  apply (keeps_isVaultMember _).bind
  intro member
  have hlock : (Api.postAuthLogout.lockFor member).Keeps (Dormant (P := P) d old) := by
    cases member with
    | false => trivial
    | true =>
      apply Prog.Keeps.mapError
      exact (fixesNow_writeSlot none).keeps_zoom dormant_vault
  apply hlock.bind
  intro _
  apply Prog.Keeps.bind (keeps_query (Prog.Keeps.execReturning _ fun w hw =>
    dormant_deleteWhere _ w hw))
  intro deleted
  cases deleted <;> trivial

/-- A login in a browser creates a session for a device id that is not a device of the vault. -/
theorem keeps_getGoogleCallback (info : Api.UserInfo) (newUserId token : String)
    {webId : String} (hother : "web-" ++ webId ≠ d) :
    (Api.getGoogleCallback info newUserId token webId).Keeps (Dormant (P := P) d old) := by
  unfold Api.getGoogleCallback
  have hupsert : ∀ w : AccessWorld P, Dormant d old w →
      Dormant d old (Api.upsertGoogleUser newUserId info w) := by
    intro w hw
    unfold Api.upsertGoogleUser
    split
    · exact keeps_withDb dormant_vault _ hw
    · split
      · exact hw
      · exact keeps_withDb dormant_vault _ hw
  apply (Prog.Keeps.exec hupsert).bind
  intro _
  apply (Prog.Keeps.query _).bind
  intro user
  apply (Prog.Keeps.ofOption _ _).bind
  intro user
  have hadmit : (Api.admitOauthUser user.userId).Keeps (Dormant (P := P) d old) := by
    unfold Api.admitOauthUser
    apply (Prog.Keeps.query _).bind
    intro vaultId
    cases vaultId with
    | none => trivial
    | some vaultId =>
      apply (keeps_query (Prog.Keeps.query _)).bind
      intro members
      apply (keeps_query (Prog.Keeps.query _)).bind
      intro member
      split <;> trivial
  apply hadmit.bind
  intro _
  have hseal : (onKeyStore (Api.sealRefreshToken (P := P) user.userId info.refreshToken)).Keeps
      (Dormant d old) :=
    (fixesNow_sealRefreshToken user.userId info.refreshToken).keeps_zoom dormant_vault
  apply hseal.attempt.bind
  intro _
  exact keeps_query (keeps_createUserSession hother token user.userId Db.sessionTtlSeconds)

/-- What an unlock does to the sessions. -/
theorem run_issueLocalSession (token : String) (w : AccessWorld P) :
    ((Api.issueLocalSession token).run w).2 = match w.localDeviceId? with
      | none => w
      | some deviceId => match w.device? deviceId with
        | none => w
        | some device =>
          if Db.sessionRefused token device.userId w = none then
            { w with sessions := w.sessions ++
              [Db.newSession token device.userId deviceId Db.sessionTtlSeconds w] }
          else w := by
  simp only [Api.issueLocalSession, Api.createSessionForLocalDevice]
  cases hlocal : w.localDeviceId? with
  | none =>
    simp [Prog.attempt, Prog.query, hlocal, Prog.ofOption]
  | some deviceId =>
    cases hdevice : w.device? deviceId with
    | none => simp [Prog.attempt, Prog.query, hlocal, hdevice, Prog.ofOption]
    | some device =>
      by_cases hok : Db.sessionRefused token device.userId w = none
      · simp [Prog.attempt, Prog.query, hlocal, hdevice, Prog.ofOption, Db.createUserSession,
          insertRow, hok, Prog.mapError, Prog.execReturning]
      · obtain ⟨e, he⟩ := Option.ne_none_iff_exists'.mp hok
        simp [Prog.attempt, Prog.query, hlocal, hdevice, Prog.ofOption, Db.createUserSession,
          insertRow, he, Prog.mapError, Prog.execReturning]

/-- Every operation away from the device keeps the device dormant. -/
theorem dormant_step (op : AccessOp P) (w : AccessWorld P) (h : Dormant d old w)
    (hdraws : op.DrawsOther d w) (helsewhere : op.Elsewhere d w) :
    Dormant d old (op.step w) := by
  cases op with
  | tick seconds =>
    constructor
    · intro s hs hd
      have hexpired := h.expired s hs hd
      simp only [AccessOp.step, AccessWorld.now] at hexpired ⊢
      omega
    · exact h.known
  | request headers minRole => exact (keeps_requireRole headers minRole).run h
  | renew headers => exact (keeps_postAuthRenew headers).run h
  | logout headers => exact (keeps_postAuthLogout headers).run h
  | localSession token =>
    rw [AccessOp.step, run_issueLocalSession]
    cases hlocal : w.localDeviceId? with
    | none => exact h
    | some deviceId =>
      cases hdevice : w.device? deviceId with
      | none =>
        simp only [hdevice]
        exact h
      | some device =>
        simp only [hdevice]
        by_cases hok : Db.sessionRefused token device.userId w = none
        · rw [if_pos hok]
          apply dormant_append _ w h
          intro heq
          have hid : deviceId = d := heq
          rw [hid] at hlocal hdevice
          exact helsewhere device hlocal hdevice hok
        · rw [if_neg hok]
          exact h
  | oauthLogin info newUserId token webId =>
    exact (keeps_getGoogleCallback info newUserId token hdraws).run h
  | cleanup =>
    have hclean : (query (Db.cleanupExpiredSessions (P := P))).Keeps (Dormant d old) :=
      keeps_query (Prog.Keeps.execReturning _ fun w hw => dormant_deleteWhere _ w hw)
    exact hclean.run h
  | invite headers req code => exact (keeps_postVaultInvite dormant_codes headers req code).run h
  | join faults req => exact (keeps_postVaultJoin dormant_vault dormant_codes faults req).run h
  | revokeDevice headers deviceId =>
    exact (keeps_postRevokeDevice dormant_vault headers deviceId).run h
  | removeMember headers userId =>
    exact (keeps_postRemoveMember dormant_vault headers userId).run h
  | keyStore upd => exact dormant_vault _ w rfl h

/-- A session that is refused by nothing is live as soon as it is created. -/
theorem liveSession_append {token userId deviceId : String} {w : AccessWorld P}
    (hok : Db.sessionRefused token userId w = none) :
    Db.liveSession token
        { w with sessions := w.sessions ++
          [Db.newSession token userId deviceId Db.sessionTtlSeconds w] } =
      some (Db.newSession token userId deviceId Db.sessionTtlSeconds w) := by
  unfold Db.sessionRefused at hok
  by_cases hused : w.sessions.any (·.token = token) = true
  · rw [if_pos hused] at hok
    cases hok
  · have hnone : ∀ s ∈ w.sessions, s.token ≠ token := by simpa using hused
    rw [Db.liveSession, List.find?_append, List.find?_eq_none.mpr]
    · have hlater : w.vault.now < w.vault.now + 86400 := by omega
      simp [Db.newSession, AccessWorld.now, Db.sessionTtlSeconds, hlater]
    · intro s hs
      simp [hnone s hs]

/-- An unlock on the device itself lets it in again. -/
theorem not_cutOff_step (op : AccessOp P) (w : AccessWorld P)
    (hno : ¬ op.Elsewhere d w) : ¬ CutOff d old (op.step w) := by
  cases op with
  | localSession token =>
    simp only [AccessOp.Elsewhere, not_forall, not_not] at hno
    obtain ⟨device, hlocal, hdevice, hok⟩ := hno
    intro hcut
    rw [AccessOp.step, run_issueLocalSession] at hcut
    simp only [hlocal, hdevice, hok, if_true] at hcut
    exact hcut.expired_of_live (liveSession_append hok) rfl
  | _ => exact absurd trivial hno

end Step

/-- A successful revocation leaves the sessions and the clock as they were. -/
theorem RevokedOk.sessions {d : String} {w w' : AccessWorld P} (h : RevokedOk d w w') :
    w'.sessions = w.sessions ∧ w'.now = w.now := by
  let same : AccessWorld P → Prop := fun t => t.sessions = w.sessions ∧ t.now = w.now
  have hvault : ∀ (vault : VaultWorld P) t, vault.now = t.vault.now → same t →
      same { t with vault } := by
    intro vault t hnow ht
    exact ⟨ht.1, hnow.trans ht.2⟩
  obtain ⟨headers, r, hrun⟩ | ⟨headers, userId, r, -, hrun⟩ := h
  · have hkept := (keeps_postRevokeDevice hvault headers d).run (s := w) ⟨rfl, rfl⟩
    rw [hrun] at hkept
    exact hkept
  · have hkept := (keeps_postRemoveMember hvault headers userId).run (s := w) ⟨rfl, rfl⟩
    rw [hrun] at hkept
    exact hkept

/-- A revoked device stays cut off through every later run exactly when its sessions had expired
at the revocation and no session is created on the installation that is the device itself. Role
checks let members pass only, in every state. -/
theorem revoked_cutOff_iff {d : String} {w w' : AccessWorld P} (hrevoked : RevokedOk d w w')
    (htokens : (w.sessions.map (·.token)).Nodup) (ops : List (AccessOp P))
    (hdraws : guarded AccessOp.step (AccessOp.DrawsOther d) ops w') :
    (∀ t ∈ states AccessOp.step ops w', CutOff d w.sessions t ∧ MembersOnly t) ↔
      (∀ s ∈ w.sessions, s.deviceId = d → s.expiresAt ≤ w.now) ∧
        guarded AccessOp.step (AccessOp.Elsewhere d) ops w' := by
  obtain ⟨hsessions, hnow⟩ := hrevoked.sessions
  have hexact : Dormant d w.sessions w' →
      ((∀ t ∈ states AccessOp.step ops w', CutOff d w.sessions t) ↔
        guarded AccessOp.step (AccessOp.Elsewhere d) ops w') := by
    intro hdormant
    exact good_iff_guarded AccessOp.step (AccessOp.DrawsOther d) (AccessOp.Elsewhere d)
      (Dormant d w.sessions) (CutOff d w.sessions) (fun t ht => ht.cutOff)
      (fun op t ht hlegal hguard => dormant_step op t ht hlegal hguard)
      (fun op t _ _ hno => not_cutOff_step op t hno) hdormant hdraws
  constructor
  · intro hall
    have hcut := (hall w' (mem_states_self _ ops w')).1
    have hexpired := hcut.expired (by rw [hsessions]; exact htokens)
    rw [hsessions, hnow] at hexpired
    refine ⟨hexpired, (hexact ?_).mp fun t ht => (hall t ht).1⟩
    exact ⟨by rw [hsessions, hnow]; exact hexpired, hcut.sessions⟩
  · rintro ⟨hexpired, hguard⟩ t ht
    refine ⟨(hexact ?_).mpr hguard t ht, membersOnly t⟩
    exact ⟨by rw [hsessions, hnow]; exact hexpired, fun s hs _ => by rw [← hsessions]; exact hs⟩

/-! ## A team of two -/

/-- An owner on the installation `laptop` and a member with the device `phone`. -/
def teamVault : VaultWorld symbolic :=
  { db :=
      { vaultState := some { masterKeySalt := [], argon2Params := ⟨2, 262144, 3, 1⟩,
                             vaultId := "vault" }
        localDeviceIdentity := some { deviceId := "laptop" }
        users := [{ userId := "alice" }, { userId := "bob" }]
        devices :=
          [{ deviceId := "laptop", userId := "alice", publicKey := .exact (.random 0) },
            { deviceId := "phone", userId := "bob", publicKey := .exact (.random 1) }]
        vaultMembers :=
          [{ userId := "alice", vaultId := "vault", role := "owner" },
            { userId := "bob", vaultId := "vault" }] }
    inner := none
    draws := 2
    now := 1000 }

def ownerSession : UserSession :=
  { token := "alice-token", userId := "alice", deviceId := "laptop", createdAt := 900,
    expiresAt := 87300 }

def memberSession : UserSession :=
  { token := "bob-token", userId := "bob", deviceId := "phone", createdAt := 950,
    expiresAt := 87350 }

/-- The team while both are logged in. -/
def team : AccessWorld symbolic := { vault := teamVault, sessions := [ownerSession, memberSession] }

/-- The team while only the owner is logged in. -/
def quietTeam : AccessWorld symbolic := { vault := teamVault, sessions := [ownerSession] }

/-- The owner revokes the device of the member. -/
def revokePhone (w : AccessWorld symbolic) : AccessWorld symbolic :=
  ((Api.postRevokeDevice (.ofToken "alice-token") "phone").run w).2

theorem revokePhone_ok {w : AccessWorld symbolic}
    (h : ∃ r, ((Api.postRevokeDevice (.ofToken "alice-token") "phone").run w).1 = .ok r) :
    RevokedOk "phone" w (revokePhone w) := by
  obtain ⟨r, hr⟩ := h
  exact .inl ⟨.ofToken "alice-token", r, Prod.ext hr rfl⟩

/-- A renewal by the owner and the passing of a day keep a revoked device cut off when it had no
live session. -/
theorem quietTeam_cutOff : RevokedOk "phone" quietTeam (revokePhone quietTeam) ∧
    ∀ t ∈ states AccessOp.step [.renew (.ofToken "alice-token"), .tick 86400]
      (revokePhone quietTeam), CutOff "phone" quietTeam.sessions t ∧ MembersOnly t := by
  have hrevoked : RevokedOk "phone" quietTeam (revokePhone quietTeam) := revokePhone_ok ⟨_, rfl⟩
  refine ⟨hrevoked, ?_⟩
  apply (revoked_cutOff_iff hrevoked (by decide)
    [.renew (.ofToken "alice-token"), .tick 86400] ⟨trivial, trivial, trivial⟩).mpr
  refine ⟨?_, trivial, trivial, trivial⟩
  intro s hs hd
  rw [List.mem_singleton.mp (show s ∈ [ownerSession] from hs)] at hd
  exact absurd hd (by decide)

/-- The session of a revoked device still passes the role check of a member. -/
theorem revoked_session_passes :
    ¬ ∀ (d : String) (w w' : AccessWorld symbolic) (ops : List (AccessOp symbolic)),
      RevokedOk d w w' →
      ∀ t ∈ states AccessOp.step ops w', CutOff d w.sessions t ∧ MembersOnly t := by
  intro hall
  have hrevoked : RevokedOk "phone" team (revokePhone team) := revokePhone_ok ⟨_, rfl⟩
  have hcut := (hall "phone" team (revokePhone team) [] hrevoked _ (mem_states_self _ _ _)).1
  have hpass : (Acl.requireRole (.ofToken "bob-token") .member).run (revokePhone team) =
      (.ok ⟨"bob", "phone", "vault", .member⟩, revokePhone team) := rfl
  exact hcut.role _ _ _ _ hpass rfl

end OmniDrive
