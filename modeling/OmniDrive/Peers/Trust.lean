import OmniDrive.Crypto.SymbolicChunks
import OmniDrive.Library.GuardedRuns
import OmniDrive.Peers.Service
import OmniDrive.Storage.RoundTrip

/-!
# Who is served plaintext

Announcements, handshakes and chunk requests of any hosts, interleaved with the enrolment and the
revocation of devices. An announcement gives trust before its handshake has been answered, and the
tables of the devices are never asked. Where no request comes in between, and only devices of the
vault are confirmed and stay, only they are served.
-/

namespace OmniDrive

open StatementProgram GuardedRuns Tables

variable {P : Primitives}

/-- A handshake under way, with the peers as they were before its announcement. -/
structure PendingHandshake where
  peerId : String
  peerApiBase : String
  before : List TrustedPeerRecord

/-- The world, the handshake that the discovery loop waits for, and the peers that have answered
one. -/
structure Discovery (P : Primitives) where
  world : PeerWorld P
  pending : Option PendingHandshake := none
  handshakes : List String := []

/-- A statement that enrols or revokes. -/
inductive TeamOp (P : Primitives) where
  | createUser (userId displayName : String)
  | createDevice (deviceId userId deviceName : String) (publicKey : P.Key)
  | addVaultMember (userId vaultId role : String) (invitedBy : Option String)
  | revokeDevice (deviceId : String)
  | removeVaultMember (userId vaultId : String)

def TeamOp.apply : TeamOp P → AccessWorld P → AccessWorld P
  | createUser userId displayName, w => ((Db.createUser userId displayName).run w).2
  | createDevice deviceId userId deviceName publicKey, w =>
    ((Db.createDevice deviceId userId deviceName publicKey).run w).2
  | addVaultMember userId vaultId role invitedBy, w =>
    ((Db.addVaultMember userId vaultId role invitedBy).run w).2
  | revokeDevice deviceId, w => ((Db.revokeDevice deviceId).run w).2
  | removeVaultMember userId vaultId, w => ((Db.removeVaultMember userId vaultId).run w).2

/-- The discovery loop takes the next datagram when it is done with the last one. -/
inductive PeerOp (P : Primitives) where
  | tick (ms : ℕ)
  | announce (announcement : PeerAnnouncement) (senderIp : String)
  | answer (reply : HelloReply)
  | request (net : Network) (cached : ℤ → ℤ → Option Bytes) (req : PeerChunkRequest)
  | team (op : TeamOp P)

namespace PeerOp

variable (svc : PeerService) (C : ChunkPrimitives P)

def step (op : PeerOp P) (s : Discovery P) : Discovery P :=
  match op with
  | .tick ms => { s with world.files.now := s.world.files.now + ms }
  | .announce announcement senderIp => match s.pending with
    | some _ => s
    | none =>
      if svc.accepts announcement then
        { s with
          world := ((PeerService.noteAnnouncement announcement senderIp).run s.world).2
          pending := some
            { peerId := announcement.deviceId
              peerApiBase := PeerService.peerApiBase senderIp announcement
              before := s.world.trustedPeers } }
      else s
  | .answer reply => match s.pending with
    | none => s
    | some q =>
      { world := ((svc.handshakePeer q.peerId q.peerApiBase reply).run s.world).2
        pending := none
        handshakes := if svc.confirms q.peerId reply then q.peerId :: s.handshakes
          else s.handshakes }
  | .request net cached req => { s with world := ((svc.getPeerChunk C net cached req).run s.world).2 }
  | .team op => { s with world := s.world.withAccess (op.apply s.world.access) }

end PeerOp

/-! ## What the service promises -/

/-- A device of a member of the vault that is not revoked. -/
def VaultDevice (svc : PeerService) (deviceId : String) (w : PeerWorld P) : Prop :=
  ∃ d ∈ w.files.vault.db.devices, d.deviceId = deviceId ∧ d.revokedAt = none ∧
    ∃ m ∈ w.files.vault.db.vaultMembers, m.userId = d.userId ∧ m.vaultId = svc.localVaultId

/-- The trust and the API base of a peer. -/
def trustOf (peerId : String) (peers : List TrustedPeerRecord) : Option (ℤ × String) :=
  (peers.find? (·.peerId = peerId)).map fun p => (p.trusted, p.peerApiBase)

/-- A chunk is served to a device of the vault that has answered a handshake, and an announcement
whose handshake fails leaves trust and API base of every peer. -/
def PeerOp.Promise (svc : PeerService) (C : ChunkPrimitives P) (op : PeerOp P)
    (s : Discovery P) : Prop :=
  match op with
  | .request net cached req => ∀ caller bytes, headerValue req.callerDevice = some caller →
    ((svc.getPeerChunk C net cached req).run s.world).1 = .ok (.ok bytes) →
      VaultDevice svc caller s.world ∧ caller ∈ s.handshakes
  | .answer reply => ∀ q, s.pending = some q → svc.confirms q.peerId reply = false →
    ∀ peerId, trustOf peerId (PeerOp.step svc C (.answer reply) s).world.trustedPeers =
      trustOf peerId q.before
  | _ => True

/-- The condition on a step: no request claims a peer whose first handshake is under way, a
handshake is answered by a device of the vault, or it fails for an announcement that repeats the
API base of the peer, and nobody is revoked or removed while a peer has the device. -/
def PeerOp.Guard (svc : PeerService) (op : PeerOp P) (s : Discovery P) : Prop :=
  match op with
  | .request _ _ req => ∀ q, s.pending = some q → headerValue req.callerDevice = some q.peerId →
    q.peerId ∈ s.handshakes
  | .answer reply => ∀ q, s.pending = some q →
    if svc.confirms q.peerId reply then VaultDevice svc q.peerId s.world
    else (trustOf q.peerId q.before).map Prod.snd = some q.peerApiBase
  | .team (.revokeDevice deviceId) => s.world.peer? deviceId = none
  | .team (.removeVaultMember userId vaultId) => vaultId = svc.localVaultId →
    ∀ d ∈ s.world.files.vault.db.devices, d.userId = userId → s.world.peer? d.deviceId = none
  | _ => True

/-! ## The invariant -/

namespace Discovery

/-- Every peer but one whose first handshake is under way is a device of the vault that has
answered a handshake, and only the announcement under way has changed the peers since. -/
structure Inv (svc : PeerService) (s : Discovery P) : Prop where
  rows : ∀ peerId ∈ s.handshakes, trustOf peerId s.world.trustedPeers ≠ none
  trusted : ∀ peerId t, trustOf peerId s.world.trustedPeers = some t → t.1 = 1
  known : ∀ peerId, trustOf peerId s.world.trustedPeers ≠ none →
    (∃ q, s.pending = some q ∧ q.peerId = peerId ∧ peerId ∉ s.handshakes) ∨
      (VaultDevice svc peerId s.world ∧ peerId ∈ s.handshakes)
  noted : ∀ q, s.pending = some q → ∀ peerId, trustOf peerId s.world.trustedPeers =
    if peerId = q.peerId then some (1, q.peerApiBase) else trustOf peerId q.before
  before : ∀ q, s.pending = some q → ∀ t, trustOf q.peerId q.before = some t →
    t.1 = 1 ∧ q.peerId ∈ s.handshakes

end Discovery

/-! ## The statements on peers -/

/-- An insertion writes trust and API base of its peer, and leaves those of the others. -/
theorem trustOf_upsert (merge : TrustedPeerRecord → TrustedPeerRecord) (row : TrustedPeerRecord)
    (hkey : ∀ p, (merge p).peerId = p.peerId)
    (hmerge : ∀ p, ((merge p).trusted, (merge p).peerApiBase) = (row.trusted, row.peerApiBase))
    (peers : List TrustedPeerRecord) (peerId : String) :
    trustOf peerId (upsert TrustedPeerRecord.peerId merge row peers) =
      if peerId = row.peerId then some (row.trusted, row.peerApiBase)
      else trustOf peerId peers := by
  unfold trustOf
  rw [find?_upsert row hkey peers peerId]
  by_cases hid : peerId = row.peerId
  · rw [if_pos hid, if_pos hid.symm]
    cases peers.find? (·.peerId = peerId) with
    | none => rfl
    | some p => exact congrArg some (hmerge p)
  · rw [if_neg hid, if_neg fun heq => hid heq.symm]

/-- A noted error leaves trust and API base of every peer. -/
theorem trustOf_peerError (peerId other : String) (lastError : Option String) (w : PeerWorld P) :
    trustOf peerId (Db.peerError other lastError w).trustedPeers =
      trustOf peerId w.trustedPeers := by
  have hkey : ∀ p : TrustedPeerRecord,
      ({ p with lastError, lastSeenAt := w.now } : TrustedPeerRecord).peerId = p.peerId :=
    fun _ => rfl
  have hfind : (Db.peerError other lastError w).trustedPeers.find? (·.peerId = peerId) =
      (w.trustedPeers.find? (·.peerId = peerId)).map fun p =>
        if p.peerId = other then { p with lastError, lastSeenAt := w.now } else p := by
    have hrow := find?_updateWhere (p := (·.peerId = other)) hkey w.trustedPeers peerId
    simp only [decide_eq_true_eq] at hrow
    exact hrow
  unfold trustOf
  rw [hfind]
  cases w.trustedPeers.find? (·.peerId = peerId) with
  | none => rfl
  | some p =>
    simp only [Option.map_some, Option.some.injEq]
    split <;> rfl

theorem trustOf_peerSeen (peerId other deviceName vaultId peerApiBase : String)
    (w : PeerWorld P) :
    trustOf peerId (Db.peerSeen other deviceName vaultId peerApiBase w).trustedPeers =
      if peerId = other then some (1, peerApiBase) else trustOf peerId w.trustedPeers := by
  unfold Db.peerSeen
  exact trustOf_upsert _ _ (by exact fun _ => rfl) (by exact fun _ => rfl) w.trustedPeers peerId

theorem trustOf_trustedPeer (peerId other deviceName vaultId peerApiBase : String)
    (lastError : Option String) (w : PeerWorld P) :
    trustOf peerId
        (Db.trustedPeer other deviceName vaultId peerApiBase lastError w).trustedPeers =
      if peerId = other then some (1, peerApiBase) else trustOf peerId w.trustedPeers := by
  unfold Db.trustedPeer
  exact trustOf_upsert _ _ (by exact fun _ => rfl) (by exact fun _ => rfl) w.trustedPeers peerId

variable {svc : PeerService} {C : ChunkPrimitives P}

/-- A confirmed handshake writes the peer with trust. -/
theorem run_handshakePeer_confirmed {expected : String} {reply : HelloReply}
    (h : svc.confirms expected reply = true) (peerApiBase : String) (w : PeerWorld P) :
    ∃ deviceName, ((svc.handshakePeer expected peerApiBase reply).run w).2 =
      Db.trustedPeer expected deviceName svc.localVaultId peerApiBase none w := by
  cases reply with
  | hello hello =>
    simp only [PeerService.confirms, Bool.and_eq_true, decide_eq_true_eq] at h
    refine ⟨hello.deviceName, ?_⟩
    rw [PeerService.handshakePeer, h.1, h.2, if_neg (by simp)]
    rfl
  | _ => cases h

/-- Any other handshake notes an error at most. -/
theorem run_handshakePeer_failed {expected : String} {reply : HelloReply}
    (h : svc.confirms expected reply = false) (peerApiBase : String) (w : PeerWorld P) :
    ((svc.handshakePeer expected peerApiBase reply).run w).2 = w ∨
      ∃ message, ((svc.handshakePeer expected peerApiBase reply).run w).2 =
        Db.peerError expected message w := by
  cases reply with
  | unreachable => exact .inl rfl
  | garbled => exact .inl rfl
  | rejected => exact .inr ⟨_, rfl⟩
  | hello hello =>
    right
    refine ⟨some "hello identity mismatch", ?_⟩
    have hother : (decide (hello.deviceId ≠ expected) ||
        decide (hello.vaultId ≠ svc.localVaultId)) = true := by
      rw [PeerService.confirms, Bool.and_eq_false_iff, decide_eq_false_iff_not,
        decide_eq_false_iff_not] at h
      simpa using h
    rw [PeerService.handshakePeer, if_pos hother]
    rfl

/-- One datagram of the discovery loop is its announcement and then its answer. -/
theorem receiveAnnouncement_eq_step (announcement : PeerAnnouncement) (senderIp : String)
    (reply : HelloReply) (s : Discovery P) (hidle : s.pending = none) :
    ((svc.receiveAnnouncement announcement senderIp reply).run s.world).2 =
      (PeerOp.step svc C (.answer reply)
        (PeerOp.step svc C (.announce announcement senderIp) s)).world := by
  cases haccepts : svc.accepts announcement with
  | false => simp [PeerService.receiveAnnouncement, PeerOp.step, haccepts, hidle]
  | true =>
    have hattempt : ∀ w : PeerWorld P, ((do
        let _ ← ((svc.handshakePeer announcement.deviceId
          (PeerService.peerApiBase senderIp announcement) reply).attempt :
            PeerProg P (Except PeerError Unit))
        pure () : PeerProg P Unit).run w).2 = ((svc.handshakePeer announcement.deviceId
          (PeerService.peerApiBase senderIp announcement) reply).run w).2 := by
      intro w
      rw [Prog.run_bind_of_ok (Prog.run_attempt _ w)]
      rfl
    simp only [PeerService.receiveAnnouncement, PeerOp.step, haccepts, if_true, hidle]
    exact hattempt _

/-! ## What a chunk request leaves alone -/

/-- Reading a chunk leaves the vault as it is. -/
theorem fixes_onVault {α ε : Type} (toError : VaultError → ε) {p : VaultProg P α}
    (hp : p.Fixes id) : (onVault toError p).Fixes (·.vault) :=
  Prog.Fixes.zoom (fun _ _ => rfl) hp.mapError

/-- A program that changes nothing of the vault changes nothing of the storage. -/
theorem fixes_onVault_id {α ε : Type} {toError : VaultError → ε} {p : VaultProg P α}
    (hp : p.Fixes id) : (onVault toError p).Fixes id := by
  apply hp.mapError.zoom_frame
  intro vault w hsame
  exact congrArg (fun vault => { w with vault }) hsame

theorem fixes_vaultKeyForV1Read : (VaultKeyStore.vaultKeyForV1Read (P := P)).Fixes id := by
  apply Prog.Fixes.bind (Prog.Fixes.query _)
  intro blob
  split
  · apply VaultKeyStore.fixes_requireEnvelopeKey.bind
    intro envelopeKey
    apply Prog.Fixes.bind (Prog.Fixes.query _)
    intro vault
    apply Prog.Fixes.bind (Prog.Fixes.ofOption _ _)
    intro vault
    apply Prog.Fixes.bind (Prog.Fixes.ofExcept _)
    intro plaintext
    exact Prog.Fixes.ofOption _ _
  · apply Prog.Fixes.bind (Prog.Fixes.query _)
    intro keys
    exact Prog.Fixes.ofOption _ _

theorem fixes_unwrapDekBytes (wrappedDek : Sized P.Wrapped) :
    (VaultKeyStore.unwrapDekBytes wrappedDek).Fixes id := by
  apply VaultKeyStore.fixes_requireEnvelopeKey.bind
  intro envelopeKey
  apply Prog.Fixes.bind (Prog.Fixes.ofOption _ _)
  intro wrapped
  unfold VaultKeyStore.unwrapWithFallback
  split
  · exact Prog.Fixes.pure _
  · apply Prog.Fixes.bind (Prog.Fixes.query _)
    intro previous
    split
    · exact Prog.Fixes.ofExcept _
    · trivial

theorem fixes_dekForPack (packId : String) :
    (VaultKeyStore.dekForPack (P := P) packId).Fixes (·.vault) := by
  apply Prog.Fixes.bind (Prog.Fixes.query _)
  intro dekId
  split
  · apply Prog.Fixes.bind (fixes_onVault _ (Prog.Fixes.query _))
    intro record
    apply Prog.Fixes.bind (Prog.Fixes.ofOption _ _)
    intro record
    exact fixes_onVault _ (fixes_unwrapDekBytes _)
  · apply Prog.Fixes.bind (Prog.Fixes.query _)
    intro inodeId
    apply Prog.Fixes.bind (Prog.Fixes.ofOption _ _)
    intro inodeId
    apply Prog.Fixes.bind (fixes_onVault _ (Prog.Fixes.query _))
    intro record
    apply Prog.Fixes.bind (Prog.Fixes.ofOption _ _)
    intro record
    apply Prog.Fixes.bind (fixes_onVault _ (fixes_unwrapDekBytes _))
    intro dek
    have hbind : (Db.setPackDek packId record.dekId : FileProg P VaultError Unit).Fixes
        (·.vault) := Prog.Fixes.exec fun _ => rfl
    exact hbind.bind fun _ => Prog.Fixes.pure _

theorem Downloader.fixes_readPlaintextChunkById (C : ChunkPrimitives P) (net : Network)
    (cached : ℤ → ℤ → Option Bytes) (chunkId : Bytes) :
    (Downloader.readPlaintextChunkById C net cached chunkId).Fixes (·.vault) := by
  apply Prog.Fixes.bind (Prog.Fixes.query _)
  intro found
  split
  · exact Prog.Fixes.pure _
  · split
    · exact Prog.Fixes.pure _
    · apply Prog.Fixes.bind (fixes_onVault _ fixes_vaultKeyForV1Read)
      intro vaultKey
      apply Prog.Fixes.bind
      · apply Prog.Fixes.bind (fixes_dekForPack _).attempt
        intro dek
        split <;> exact Prog.Fixes.pure _
      · intro dek
        apply Prog.Fixes.bind (Downloader.fixes_downloadPack C net (fun _ _ _ => rfl) _)
        intro source
        apply Prog.Fixes.bind
        · apply Prog.Fixes.bind (Prog.Fixes.query _)
          intro bytes
          exact Prog.Fixes.ofOption _ _
        · intro packBytes
          apply Prog.Fixes.bind (Prog.Fixes.ofExcept _)
          intro bytes
          exact Prog.Fixes.pure _

/-- What a chunk request reads of the world and leaves as it was. -/
def peerPart (w : PeerWorld P) : VaultWorld P × List TrustedPeerRecord :=
  (w.files.vault, w.trustedPeers)

theorem fixes_servePeerChunk (net : Network) (cached : ℤ → ℤ → Option Bytes)
    (chunkHex : String) : (servePeerChunk C net cached chunkHex).Fixes peerPart := by
  unfold servePeerChunk
  split
  · exact Prog.Fixes.pure _
  · next chunkId _ =>
    have hread : (onPeerFiles (Downloader.readPlaintextChunkById C net cached chunkId)).Fixes
        (peerPart (P := P)) := by
      apply (Downloader.fixes_readPlaintextChunkById C net cached chunkId).zoom_frame
      intro files w hvault
      exact congrArg (fun vault => (vault, w.trustedPeers)) hvault
    apply Prog.Fixes.bind hread.attempt
    intro result
    split <;> exact Prog.Fixes.pure _

theorem fixes_getPeerChunk (net : Network) (cached : ℤ → ℤ → Option Bytes)
    (req : PeerChunkRequest) : (svc.getPeerChunk C net cached req).Fixes peerPart := by
  unfold PeerService.getPeerChunk
  split
  · exact Prog.Fixes.pure _
  · split
    · exact Prog.Fixes.pure _
    · split
      · exact Prog.Fixes.pure _
      · apply Prog.Fixes.bind (Prog.Fixes.attempt (Prog.Fixes.query _))
        intro result
        split
        · exact Prog.Fixes.pure _
        · split
          · exact fixes_servePeerChunk net cached req.chunkHex
          · exact Prog.Fixes.pure _

/-- A request is answered with a chunk only for a peer with trust. -/
theorem trusted_of_getPeerChunk {net : Network} {cached : ℤ → ℤ → Option Bytes}
    {req : PeerChunkRequest} {caller : String} {bytes : Bytes} {w : PeerWorld P}
    (hcaller : headerValue req.callerDevice = some caller)
    (h : ((svc.getPeerChunk C net cached req).run w).1 = .ok (.ok bytes)) :
    ∃ p, w.peer? caller = some p ∧ p.trusted ≠ 0 := by
  unfold PeerService.getPeerChunk at h
  rw [hcaller] at h
  dsimp only at h
  split at h
  · cases h
  · split at h
    · cases h
    · have hrun : ((Db.getTrustedPeerById caller).attempt :
          PeerProg P (Except PeerError (Option TrustedPeerRecord))).run w =
            (.ok (.ok (w.peer? caller)), w) := rfl
      rw [Prog.run_bind_of_ok hrun] at h
      dsimp only at h
      split at h
      · next htrusted =>
        obtain ⟨p, hp, htrust⟩ := (Option.any_eq_true _ _).mp htrusted
        exact ⟨p, hp, by simpa using htrust⟩
      · cases h

/-! ## The devices of the vault -/

namespace VaultDevice

/-- A device stays one while the vault stays. -/
theorem congr {deviceId : String} {w w' : PeerWorld P} (h : VaultDevice svc deviceId w)
    (hvault : w'.files.vault.db = w.files.vault.db) : VaultDevice svc deviceId w' := by
  unfold VaultDevice
  rw [hvault]
  exact h

/-- An insert writes its row or nothing. -/
theorem run_insertRow (refused : AccessWorld P → Option DbError)
    (upd : AccessWorld P → AccessWorld P) (w : AccessWorld P) :
    ((insertRow refused upd).run w).2 = w ∨ ((insertRow refused upd).run w).2 = upd w := by
  rw [insertRow, Prog.run_execReturning_bind]
  cases hrefused : refused w with
  | none =>
    right
    rw [if_pos rfl]
    rfl
  | some e =>
    left
    rw [if_neg (by simp)]
    rfl

/-- A device of the vault that no revocation names and whose member is not removed stays one. -/
theorem team {op : TeamOp P} {deviceId : String} {w : PeerWorld P}
    (h : VaultDevice svc deviceId w)
    (hrevoked : ∀ other, op = .revokeDevice other → other ≠ deviceId)
    (hremoved : ∀ userId, op = .removeVaultMember userId svc.localVaultId →
      ∀ d ∈ w.files.vault.db.devices, d.userId = userId → d.deviceId ≠ deviceId) :
    VaultDevice svc deviceId (w.withAccess (op.apply w.access)) := by
  obtain ⟨d, hd, hid, hlive, m, hm, huser, hvault⟩ := h
  have hrows : d ∈ (op.apply w.access).vault.db.devices ∧
      m ∈ (op.apply w.access).vault.db.vaultMembers := by
    cases op with
    | createUser userId displayName =>
      simp only [TeamOp.apply, Db.createUser]
      rcases run_insertRow _ _ w.access with hrun | hrun <;> rw [hrun]
      · exact ⟨hd, hm⟩
      · exact ⟨hd, hm⟩
    | createDevice other userId deviceName publicKey =>
      simp only [TeamOp.apply, Db.createDevice]
      rcases run_insertRow _ _ w.access with hrun | hrun <;> rw [hrun]
      · exact ⟨hd, hm⟩
      · exact ⟨List.mem_append_left _ hd, hm⟩
    | addVaultMember userId vaultId role invitedBy =>
      simp only [TeamOp.apply, Db.addVaultMember]
      rcases run_insertRow _ _ w.access with hrun | hrun <;> rw [hrun]
      · exact ⟨hd, hm⟩
      · exact ⟨hd, List.mem_append_left _ hm⟩
    | revokeDevice other =>
      have hother : d.deviceId ≠ other := fun heq => hrevoked other rfl (heq ▸ hid)
      refine ⟨List.mem_map.mpr ⟨d, hd, ?_⟩, hm⟩
      rw [if_neg (by simp [Db.isLiveDevice, hother])]
    | removeVaultMember userId vaultId =>
      refine ⟨hd, List.mem_filter.mpr ⟨hm, ?_⟩⟩
      have hkept : ¬(m.userId = userId ∧ m.vaultId = vaultId) := by
        rintro ⟨hsame, hlocal⟩
        obtain rfl : vaultId = svc.localVaultId := hlocal.symm.trans hvault
        exact hremoved userId rfl d hd (huser.symm.trans hsame) hid
      simpa [-not_and, not_and_or] using hkept
  exact ⟨d, hrows.1, hid, hlive, m, hrows.2, huser, hvault⟩

end VaultDevice

/-! ## The steps keep the invariant -/

namespace Discovery

/-- A device that has answered a handshake is one of the vault. -/
theorem Inv.device {s : Discovery P} (hs : s.Inv svc) {peerId : String}
    (hpeer : peerId ∈ s.handshakes) : VaultDevice svc peerId s.world := by
  obtain ⟨q, hq, hid, hfirst⟩ | ⟨hdevice, -⟩ := hs.known peerId (hs.rows peerId hpeer)
  · exact absurd hpeer hfirst
  · exact hdevice

/-- The invariant is about the devices and the peers. -/
theorem Inv.of_world {s : Discovery P} (hs : s.Inv svc) {w : PeerWorld P}
    (hpeers : w.trustedPeers = s.world.trustedPeers)
    (hdevices : ∀ peerId ∈ s.handshakes, VaultDevice svc peerId w) :
    ({ s with world := w } : Discovery P).Inv svc where
  rows peerId hpeer := by
    rw [hpeers]
    exact hs.rows peerId hpeer
  trusted peerId t ht := by
    rw [hpeers] at ht
    exact hs.trusted peerId t ht
  known peerId hrow := by
    rw [hpeers] at hrow
    obtain hpending | ⟨-, hpeer⟩ := hs.known peerId hrow
    · exact .inl hpending
    · exact .inr ⟨hdevices peerId hpeer, hpeer⟩
  noted q hq peerId := by
    rw [hpeers]
    exact hs.noted q hq peerId
  before := hs.before

theorem inv_announce {s : Discovery P} (hs : s.Inv svc) (announcement : PeerAnnouncement)
    (senderIp : String) :
    (PeerOp.step svc C (.announce announcement senderIp) s).Inv svc := by
  cases hpending : s.pending with
  | some q =>
    have hsame : PeerOp.step svc C (.announce announcement senderIp) s = s := by
      simp only [PeerOp.step, hpending]
    exact hsame.symm ▸ hs
  | none =>
    cases haccepts : svc.accepts announcement with
    | false =>
      have hsame : PeerOp.step svc C (.announce announcement senderIp) s = s := by
        simp only [PeerOp.step, hpending, haccepts, Bool.false_eq_true, if_false]
      exact hsame.symm ▸ hs
    | true =>
      simp only [PeerOp.step, hpending, haccepts, if_true]
      have hseen := fun peerId => trustOf_peerSeen peerId announcement.deviceId
        announcement.deviceName announcement.vaultId
        (PeerService.peerApiBase senderIp announcement) s.world
      have hanswered : ∀ peerId, trustOf peerId s.world.trustedPeers ≠ none →
          VaultDevice svc peerId s.world ∧ peerId ∈ s.handshakes := by
        intro peerId hrow
        obtain ⟨q, hq, -⟩ | hknown := hs.known peerId hrow
        · rw [hpending] at hq
          cases hq
        · exact hknown
      constructor
      case rows =>
        intro peerId hpeer
        refine (hseen peerId).trans_ne ?_
        split
        · simp
        · exact hs.rows peerId hpeer
      case trusted =>
        intro peerId t ht
        have ht := (hseen peerId).symm.trans ht
        split at ht
        · cases ht
          rfl
        · exact hs.trusted peerId t ht
      case known =>
        intro peerId hrow
        have hrow := (hseen peerId).symm.trans_ne hrow
        by_cases hpeer : peerId ∈ s.handshakes
        · exact .inr ⟨(hs.device hpeer).congr rfl, hpeer⟩
        · refine .inl ⟨_, rfl, ?_, hpeer⟩
          by_contra hother
          rw [if_neg (Ne.symm hother)] at hrow
          exact hpeer (hanswered peerId hrow).2
      case noted =>
        rintro q ⟨⟩ peerId
        exact hseen peerId
      case before =>
        rintro q ⟨⟩ t ht
        have hrow : trustOf announcement.deviceId s.world.trustedPeers ≠ none := by
          rw [show trustOf announcement.deviceId s.world.trustedPeers = some t from ht]
          simp
        exact ⟨hs.trusted _ t ht, (hanswered _ hrow).2⟩

/-- What an announcement whose handshake fails leaves, under its guard. -/
theorem trustOf_failed {s : Discovery P} (hs : s.Inv svc) {q : PendingHandshake}
    (hq : s.pending = some q)
    (hbase : (trustOf q.peerId q.before).map Prod.snd = some q.peerApiBase) (peerId : String) :
    trustOf peerId s.world.trustedPeers = trustOf peerId q.before := by
  rw [hs.noted q hq peerId]
  by_cases hid : peerId = q.peerId
  · rw [if_pos hid, hid]
    obtain ⟨t, ht, hsnd⟩ := Option.map_eq_some_iff.mp hbase
    have htrust := (hs.before q hq t ht).1
    rw [ht, ← hsnd, ← htrust]
  · rw [if_neg hid]

/-- A failed handshake leaves trust and API bases. -/
theorem trustOf_handshakePeer_failed {expected : String} {reply : HelloReply}
    (h : svc.confirms expected reply = false) (peerApiBase : String) (w : PeerWorld P)
    (peerId : String) :
    trustOf peerId ((svc.handshakePeer expected peerApiBase reply).run w).2.trustedPeers =
      trustOf peerId w.trustedPeers := by
  obtain hrun | ⟨message, hrun⟩ := run_handshakePeer_failed h peerApiBase w
  · rw [hrun]
  · rw [hrun]
    exact trustOf_peerError peerId expected message w

theorem handshakePeer_devices (svc : PeerService) (expected peerApiBase : String)
    (reply : HelloReply) (w : PeerWorld P) :
    ((svc.handshakePeer expected peerApiBase reply).run w).2.files.vault.db =
      w.files.vault.db := by
  cases hconfirms : svc.confirms expected reply with
  | true =>
    obtain ⟨deviceName, hrun⟩ := run_handshakePeer_confirmed hconfirms peerApiBase w
    rw [hrun]
    rfl
  | false =>
    obtain hrun | ⟨message, hrun⟩ := run_handshakePeer_failed hconfirms peerApiBase w
    · rw [hrun]
    · rw [hrun]
      rfl

theorem inv_answer {s : Discovery P} (hs : s.Inv svc) {reply : HelloReply}
    (hguard : PeerOp.Guard svc (.answer reply) s) :
    (PeerOp.step svc C (.answer reply) s).Inv svc := by
  cases hpending : s.pending with
  | none =>
    have hsame : PeerOp.step svc C (.answer reply) s = s := by
      simp only [PeerOp.step, hpending]
    exact hsame.symm ▸ hs
  | some q =>
    have hguard := hguard q hpending
    have hdevices := handshakePeer_devices svc q.peerId q.peerApiBase reply s.world
    cases hconfirms : svc.confirms q.peerId reply with
    | true =>
      simp only [PeerOp.step, hpending, hconfirms, if_true]
      rw [hconfirms, if_pos rfl] at hguard
      have hrow : ∀ peerId, trustOf peerId
          ((svc.handshakePeer q.peerId q.peerApiBase reply).run s.world).2.trustedPeers =
            if peerId = q.peerId then some (1, q.peerApiBase)
            else trustOf peerId s.world.trustedPeers := by
        intro peerId
        obtain ⟨deviceName, hrun⟩ :=
          run_handshakePeer_confirmed hconfirms q.peerApiBase s.world
        rw [hrun]
        exact trustOf_trustedPeer peerId q.peerId deviceName svc.localVaultId q.peerApiBase none
          s.world
      constructor
      case rows =>
        intro peerId hpeer
        refine (hrow peerId).trans_ne ?_
        rcases List.mem_cons.mp hpeer with rfl | hpeer
        · simp
        · split
          · simp
          · exact hs.rows peerId hpeer
      case trusted =>
        intro peerId t ht
        have ht := (hrow peerId).symm.trans ht
        split at ht
        · cases ht
          rfl
        · exact hs.trusted peerId t ht
      case known =>
        intro peerId hknown
        right
        by_cases hid : peerId = q.peerId
        · exact ⟨hid ▸ hguard.congr hdevices, hid ▸ List.mem_cons_self⟩
        · have hold := (hrow peerId).symm.trans_ne hknown
          rw [if_neg hid] at hold
          obtain ⟨q', hq', hid', -⟩ | ⟨hdevice, hpeer⟩ := hs.known peerId hold
          · rw [hpending] at hq'
            cases hq'
            exact absurd hid'.symm hid
          · exact ⟨hdevice.congr hdevices, List.mem_cons_of_mem _ hpeer⟩
      case noted => rintro q' ⟨⟩
      case before => rintro q' ⟨⟩
    | false =>
      simp only [PeerOp.step, hpending, hconfirms, Bool.false_eq_true, if_false]
      rw [hconfirms, if_neg (by simp)] at hguard
      have hrow := trustOf_handshakePeer_failed hconfirms q.peerApiBase s.world
      constructor
      case rows =>
        intro peerId hpeer
        exact (hrow peerId).trans_ne (hs.rows peerId hpeer)
      case trusted =>
        intro peerId t ht
        exact hs.trusted peerId t ((hrow peerId).symm.trans ht)
      case known =>
        intro peerId hknown
        right
        obtain ⟨q', hq', hid, hfirst⟩ | ⟨hdevice, hpeer⟩ :=
          hs.known peerId ((hrow peerId).symm.trans_ne hknown)
        · rw [hpending] at hq'
          cases hq'
          obtain ⟨t, ht, -⟩ := Option.map_eq_some_iff.mp hguard
          exact absurd (hid ▸ (hs.before q hpending t ht).2) hfirst
        · exact ⟨hdevice.congr hdevices, hpeer⟩
      case noted => rintro q' ⟨⟩
      case before => rintro q' ⟨⟩

theorem peer?_ne_none {s : Discovery P} (hs : s.Inv svc) {peerId : String}
    (hpeer : peerId ∈ s.handshakes) : s.world.peer? peerId ≠ none := by
  intro hnone
  apply hs.rows peerId hpeer
  rw [trustOf, show s.world.trustedPeers.find? (·.peerId = peerId) = none from hnone]
  rfl

theorem inv_team {s : Discovery P} (hs : s.Inv svc) {op : TeamOp P}
    (hguard : PeerOp.Guard svc (.team op) s) : (PeerOp.step svc C (.team op) s).Inv svc := by
  apply hs.of_world (w := s.world.withAccess (op.apply s.world.access)) rfl
  intro peerId hpeer
  apply (hs.device hpeer).team
  · rintro other rfl rfl
    exact peer?_ne_none hs hpeer hguard
  · rintro userId rfl d hd huser rfl
    exact peer?_ne_none hs hpeer (hguard rfl d hd huser)

theorem inv_step {op : PeerOp P} {s : Discovery P} (hs : s.Inv svc)
    (hguard : op.Guard svc s) : (op.step svc C s).Inv svc := by
  cases op with
  | tick ms => exact hs.of_world rfl fun peerId hpeer => (hs.device hpeer).congr rfl
  | announce announcement senderIp => exact inv_announce hs announcement senderIp
  | answer reply => exact inv_answer hs hguard
  | request net cached req =>
    have hpart : peerPart ((svc.getPeerChunk C net cached req).run s.world).2 =
        peerPart s.world := (fixes_getPeerChunk net cached req).run s.world
    have hvault := congrArg Prod.fst hpart
    have hpeers := congrArg Prod.snd hpart
    apply hs.of_world hpeers
    intro peerId hpeer
    exact (hs.device hpeer).congr (congrArg VaultWorld.db hvault)
  | team op => exact inv_team hs hguard

theorem promise_of_guard {op : PeerOp P} {s : Discovery P} (hs : s.Inv svc)
    (hguard : op.Guard svc s) : op.Promise svc C s := by
  cases op with
  | tick ms => trivial
  | announce announcement senderIp => trivial
  | answer reply =>
    intro q hq hconfirms peerId
    have hguard := hguard q hq
    rw [hconfirms, if_neg (by simp)] at hguard
    simp only [PeerOp.step, hq]
    rw [trustOf_handshakePeer_failed hconfirms]
    exact trustOf_failed hs hq hguard peerId
  | request net cached req =>
    intro caller bytes hcaller hserved
    obtain ⟨p, hp, -⟩ := trusted_of_getPeerChunk hcaller hserved
    have hrow : trustOf caller s.world.trustedPeers ≠ none := by
      rw [trustOf, show s.world.trustedPeers.find? (·.peerId = caller) = some p from hp]
      simp
    obtain ⟨q, hq, rfl, hfirst⟩ | hknown := hs.known caller hrow
    · exact absurd (hguard q hq hcaller) hfirst
    · exact hknown
  | team op => trivial

end Discovery

/-- From a vault without peers, the promises are kept in every run whose steps meet the
condition. -/
theorem servedToDevices_of_guarded {w : PeerWorld P} (hpeers : w.trustedPeers = [])
    {ops : List (PeerOp P)}
    (hguard : guarded (PeerOp.step svc C) (PeerOp.Guard svc) ops { world := w }) :
    guarded (PeerOp.step svc C) (PeerOp.Promise svc C) ops { world := w } := by
  have hstart : ({ world := w } : Discovery P).Inv svc := by
    constructor
    case rows => simp
    case trusted => simp [hpeers, trustOf]
    case known => simp [hpeers, trustOf]
    case noted => simp
    case before => simp
  exact guarded_of_inv (PeerOp.step svc C) (fun _ _ => True) (PeerOp.Guard svc)
    (Discovery.Inv svc) (fun _ _ hs _ => Discovery.inv_step hs)
    (fun _ _ hs _ => Discovery.promise_of_guard hs) hstart
    (guarded_of_forall _ (fun _ _ => trivial) ops _) hguard

/-! ## A phone and a stranger -/

def laptop : PeerService :=
  { localDeviceId := "laptop"
    localDeviceName := "Laptop"
    localVaultId := "vault" }

def phone : PeerService :=
  { localDeviceId := "phone"
    localDeviceName := "Phone"
    localVaultId := "vault" }

/-- A vault with one chunk, which the chunk cache has as well. -/
def oneChunk : PeerWorld symbolic :=
  { files :=
      { vault := openVault
        db :=
          { fileRevisions :=
              [{ revisionId := 1, inodeId := 1, createdAt := 0, size := 3, isCurrent := true
                 immutableUntil := none, deviceId := none, parentRevisionId := none
                 origin := "local", conflictReason := none }]
            chunkRefs := [{ id := 1, revisionId := 1, chunkId := [171], fileOffset := 0, size := 3 }]
            packLocations :=
              [{ chunkId := [171], packId := "pack", packOffset := 0, encryptedSize := 3 }] } } }

def announced (deviceId : String) : PeerAnnouncement :=
  { deviceId
    deviceName := deviceId
    vaultId := "vault"
    peerPort := 8788 }

def asks (deviceId : String) : PeerChunkRequest :=
  { callerDevice := some deviceId
    vaultId := some "vault"
    chunkHex := "ab" }

def asked (deviceId : String) : PeerOp symbolic :=
  .request offline (fun _ _ => some [1, 2, 3]) (asks deviceId)

/-- The phone is enrolled, announces itself and answers the handshake. -/
def paired : List (PeerOp symbolic) :=
  [.team (.createUser "ada" "Ada"), .team (.addVaultMember "ada" "vault" "owner" none),
    .team (.createDevice "phone" "ada" "Phone" (.random 1)),
    .announce (announced "phone") "192.168.0.2",
    .answer (phone.getPeerHello laptop.localVaultId)]

/-- The state after some operations. -/
def afterPeerOps (ops : List (PeerOp symbolic)) : Discovery symbolic :=
  ops.foldl (fun s op => op.step laptop symbolicChunks s) { world := oneChunk }

/-- The phone is served. -/
theorem paired_servedToDevices : oneChunk.trustedPeers = [] ∧
    ((laptop.getPeerChunk symbolicChunks offline (fun _ _ => some [1, 2, 3]) (asks "phone")).run
      (afterPeerOps paired).world).1 = .ok (.ok [1, 2, 3]) ∧
    guarded (PeerOp.step laptop symbolicChunks) (PeerOp.Promise laptop symbolicChunks)
      (paired ++ [asked "phone"]) { world := oneChunk } := by
  refine ⟨rfl, by decide +kernel, ?_⟩
  apply servedToDevices_of_guarded rfl
  refine ⟨trivial, trivial, trivial, trivial, ?_, ?_, trivial⟩
  · have hphone : VaultDevice laptop "phone" (afterPeerOps (paired.take 4)).world :=
      ⟨_, List.mem_cons_self, rfl, rfl, _, List.mem_cons_self, rfl, rfl⟩
    rintro q ⟨⟩
    rw [if_pos (by decide)]
    exact hphone
  · rintro q ⟨⟩

/-- A stranger announces itself and answers no handshake. -/
def stranger : List (PeerOp symbolic) :=
  [.announce (announced "stranger") "192.168.0.66", .answer .unreachable]

/-- Somebody announces the phone from elsewhere, and answers no handshake. -/
def redirected : List (PeerOp symbolic) :=
  [.announce (announced "phone") "192.168.0.66", .answer .unreachable]

/-- The stranger is served, and the API base of the phone is rewritten. -/
theorem servedToDevices_fails : oneChunk.trustedPeers = [] ∧
    ¬ guarded (PeerOp.step laptop symbolicChunks) (PeerOp.Promise laptop symbolicChunks)
      (stranger ++ [asked "stranger"]) { world := oneChunk } ∧
    ¬ guarded (PeerOp.step laptop symbolicChunks) (PeerOp.Promise laptop symbolicChunks)
      (paired ++ redirected) { world := oneChunk } := by
  refine ⟨rfl, ?_, ?_⟩
  · intro h
    have hserved : ((laptop.getPeerChunk symbolicChunks offline (fun _ _ => some [1, 2, 3])
        (asks "stranger")).run (afterPeerOps stranger).world).1 = .ok (.ok [1, 2, 3]) := by
      decide +kernel
    have hcaller : headerValue (asks "stranger").callerDevice = some "stranger" := by decide
    have hpromise := ((guarded_append _ _ stranger _ _).mp h).2.1
    obtain ⟨-, hpeer⟩ := hpromise "stranger" [1, 2, 3] hcaller hserved
    cases hpeer
  · intro h
    have hpromise := ((guarded_append _ _ paired _ _).mp h).2.2.1
    have hkept := hpromise _ rfl rfl "phone"
    revert hkept
    decide +kernel

end OmniDrive
