import OmniDrive.Access.Devices
import OmniDrive.Library.GuardedRuns
import OmniDrive.Vault.RotationOutcome

/-!
# Runs of the operations on device wraps

The operations that write the public keys and the wraps of devices, or replace the vault key,
each as a program of statements. Any number of them are in progress at once, and the next
statement may be one of any. The keys that the devices hold stand beside the tables: an enrolment
changes both.
-/

namespace OmniDrive

open StatementProgram Tables

variable {P : Primitives}

/-- The secret keys of a device: its X25519 key, and the draw of its ML-KEM pair. -/
structure DeviceKeys (P : Primitives) where
  x25519 : P.Key
  kyberPair : ℕ

/-- The tables of the installation, and the keys that the devices hold. -/
structure WrapWorld (P : Primitives) where
  access : AccessWorld P
  keys : String → DeviceKeys P

namespace WrapWorld

def vault (w : WrapWorld P) : VaultWorld P := w.access.vault

def devices (w : WrapWorld P) : List (DeviceRecord P) := w.access.vault.db.devices

/-- The world with another key store. -/
def withVault (vault : VaultWorld P) (w : WrapWorld P) : WrapWorld P :=
  { w with access := { w.access with vault } }

/-- The public key that belongs to the secret of a device. -/
def publicKey (w : WrapWorld P) (deviceId : String) : P.Key :=
  P.x25519Public (w.keys deviceId).x25519

end WrapWorld

/-! ## Programs -/

/-- Run a program and ignore its outcome. -/
def silently {S ε α : Type} (p : Prog S ε α) : Prog S Unit Unit := do
  let _ ← (p.attempt : Prog S Unit (Except ε α))
  pure ()

/-- Run a program on the tables. -/
def onTables {ε α : Type} (p : Prog (AccessWorld P) ε α) : Prog (WrapWorld P) ε α :=
  p.zoom (·.access) fun access w => { w with access }

/-- A device registers the public key of a new secret. -/
def enrolDevice (deviceId : String) (secret : P.Key) (w : WrapWorld P) : WrapWorld P :=
  { w with
    access := ((onKeyStore (Db.setDevicePublicKey deviceId (P.x25519Public secret))).run w.access).2
    keys := Function.update w.keys deviceId { w.keys deviceId with x25519 := secret } }

/-- The operations, with what the environment decides. -/
inductive WrapOp (P : Primitives) where
  | accept (fault : Bool) (headers : HeaderMap) (deviceId : String) (draw : ℕ)
  | add (faults : Api.AddFaults) (headers : HeaderMap) (req : Api.AddDeviceRequest P)
  | enrol (deviceId : String) (secret : P.Key)
  | revoke (headers : HeaderMap) (deviceId : String)
  | remove (headers : HeaderMap) (userId : String)
  | rotateForRevocation
  | rotateVaultKey (newPassphrase : String)

namespace WrapOp

def program (H : HybridPrimitives P) : WrapOp P → Prog (WrapWorld P) Unit Unit
  | accept fault headers deviceId draw =>
    silently (onTables (Api.postAcceptDevice H fault headers deviceId draw))
  | add faults headers req => silently (onTables (Api.postAddDevice faults headers req))
  | enrol deviceId secret => Prog.exec (enrolDevice deviceId secret)
  | revoke headers deviceId => silently (onTables (Api.postRevokeDevice headers deviceId))
  | remove headers userId => silently (onTables (Api.postRemoveMember headers userId))
  | rotateForRevocation => silently (onTables (onKeyStore VaultKeyStore.rotateForRevocation))
  | rotateVaultKey newPassphrase =>
    silently (onTables (onKeyStore (VaultKeyStore.rotateVaultKey newPassphrase)))

/-- The device that an operation may give a wrap. -/
def wraps : WrapOp P → Option String
  | accept _ _ deviceId _ => some deviceId
  | add _ _ req => some req.deviceId
  | _ => none

/-- The device that an operation enrols. -/
def enrols : WrapOp P → Option String
  | enrol deviceId _ => some deviceId
  | _ => none

/-- Whether an operation replaces the vault key. -/
def rotates : WrapOp P → Bool
  | accept .. | add .. | enrol .. => false
  | _ => true

end WrapOp

/-- The world, and the operations in progress with what is left of them. -/
structure WrapSystem (P : Primitives) where
  world : WrapWorld P
  tasks : List (WrapOp P × Prog (WrapWorld P) Unit Unit) := []

/-- The start of an operation, or the next statement of one. -/
inductive WrapEvent (P : Primitives) where
  | start (op : WrapOp P)
  | stmt (i : ℕ)

/-- An operation without a next statement is taken off the list. -/
def WrapEvent.apply (H : HybridPrimitives P) (event : WrapEvent P) (s : WrapSystem P) :
    WrapSystem P :=
  match event with
  | start op => { s with tasks := s.tasks ++ [(op, op.program H)] }
  | stmt i => match s.tasks[i]? with
    | some (op, .stmt upd next) =>
      { s with world := upd s.world, tasks := s.tasks.set i (op, next s.world) }
    | some _ => { s with tasks := s.tasks.eraseIdx i }
    | none => s

/-! ## Current wraps -/

/-- The envelope key and the generation of the row of the vault, which the master key in memory
opens. -/
def KeyInForce (w : VaultWorld P) (envelopeKey : P.Key) (generation : ℤ) : Prop :=
  ∃ keys v wrapped, w.inner = some keys ∧ w.db.vaultState = some v ∧
    v.encryptedVaultKey = some (.exact wrapped) ∧
    unwrapKey (deriveKek keys.masterKey) wrapped = .ok envelopeKey ∧
    v.vaultKeyGeneration = some generation

/-- The public key of the device that wraps, as other devices are given it. -/
def WrappingKey (w : VaultWorld P) (pub : P.Key) : Prop :=
  ∃ device, w.db.localDeviceIdentity = some device ∧ device.publicKey = some (.exact pub)

/-- The wraps of a device open with its own keys to the vault key of the generation. -/
structure OpensToKey (H : HybridPrimitives P) (w : WrapWorld P) (envelopeKey : P.Key)
    (generation : ℤ) (d : DeviceRecord P) : Prop where
  opens : ∀ wrapped, d.wrappedVaultKey = some wrapped → ∃ pub, WrappingKey w.vault pub ∧
    Identity.unwrapVaultKeyFromDevice (w.keys d.deviceId).x25519 pub wrapped = .ok envelopeKey
  generation : d.wrappedVaultKey.isSome → d.vaultKeyGeneration = some generation
  hybrid : ∀ blob, d.wrappedVaultKeyKyber = some blob → ∃ pub v, WrappingKey w.vault pub ∧
    w.vault.db.vaultState = some v ∧
    Identity.hybridUnwrapVaultKeyFromDevice H (w.keys d.deviceId).x25519 pub
      (P.mlKem768 (w.keys d.deviceId).kyberPair).2 (P.mlKem768 (w.keys d.deviceId).kyberPair).1
      blob v.vaultId d.deviceId = .ok envelopeKey

/-- A revoked device has no wrap, and the wraps of the others open to the key in force. -/
def WrapsCurrent (H : HybridPrimitives P) (w : WrapWorld P) : Prop :=
  ∃ envelopeKey generation, KeyInForce w.vault envelopeKey generation ∧ ∀ d ∈ w.devices,
    (d.revokedAt = none → OpensToKey H w envelopeKey generation d) ∧
    (d.revokedAt.isSome → d.wrappedVaultKey = none ∧ d.wrappedVaultKeyKyber = none)

/-- Every state of a run in which nothing is in progress has current wraps. -/
def WrapsStayCurrent (H : HybridPrimitives P) (events : List (WrapEvent P)) (s : WrapSystem P) :
    Prop :=
  ∀ t ∈ GuardedRuns.states (WrapEvent.apply H) events s, t.tasks = [] → WrapsCurrent H t.world

/-- The wraps are current, and the tables fit the keys: a device id is a key, the public key of a
device that has enrolled or has a wrap is its own, and so is its ML-KEM key. The pair of the local
device belongs together. -/
structure WrapsOk (H : HybridPrimitives P) (w : WrapWorld P) : Prop where
  current : WrapsCurrent H w
  ids : (w.devices.map (·.deviceId)).Nodup
  own : ∀ d ∈ w.devices, d.enrolledAt.isSome ∨ d.wrappedVaultKey.isSome →
    d.publicKey = .exact (w.publicKey d.deviceId)
  kyber : ∀ d ∈ w.devices, ∀ encapsKey, d.kyberPublicKey = some encapsKey →
    encapsKey = (P.mlKem768 (w.keys d.deviceId).kyberPair).1
  pair : ∀ device blob kek secret, w.vault.db.localDeviceIdentity = some device →
    device.encryptedPrivateKey = some blob → P.gcmOpen kek "" blob = some (.exact secret) →
    device.publicKey = some (.exact (P.x25519Public secret))

/-! ## What keeps the wraps current -/

/-- The secret of the local device, when the master key in memory opens it. -/
def OwnerSecret (w : VaultWorld P) (secret : P.Key) : Prop :=
  ∃ keys device blob, w.inner = some keys ∧ w.db.localDeviceIdentity = some device ∧
    device.encryptedPrivateKey = some blob ∧
    P.gcmOpen (Identity.deriveIdentityKek keys.masterKey) "" blob = some (.exact secret)

/-- The envelope key in memory is the one in force. -/
def MemorySynced (w : VaultWorld P) : Prop :=
  ∃ keys envelopeKey generation, w.inner = some keys ∧ keys.envelopeVaultKey = some envelopeKey ∧
    KeyInForce w envelopeKey generation

/-- The device has enrolled, is not revoked, and has no wrap yet. -/
def AwaitsWrap (deviceId : String) (w : WrapWorld P) : Prop :=
  ∃ d ∈ w.devices, d.deviceId = deviceId ∧ d.revokedAt = none ∧ d.enrolledAt.isSome ∧
    d.wrappedVaultKey = none

/-- The device has enrolled and is not revoked. -/
def LiveEnrolled (deviceId : String) (w : WrapWorld P) : Prop :=
  ∃ d ∈ w.devices, d.deviceId = deviceId ∧ d.revokedAt = none ∧ d.enrolledAt.isSome

/-- A revocation rotation wraps the new key for the device: the device belongs to a member, and
the local device agrees with it on a secret. -/
def Rewraps (w : WrapWorld P) (d : DeviceRecord P) : Prop :=
  ∃ secret v, OwnerSecret w.vault secret ∧ w.vault.db.vaultState = some v ∧
    (∃ m ∈ w.vault.db.vaultMembers, m.vaultId = v.vaultId ∧ m.userId = d.userId) ∧
    P.x25519 secret (w.publicKey d.deviceId) ≠ P.zeroKey

/-- In an unlocked vault, and apart from devices that are about to be revoked, no device has a
hybrid wrap, and those that have a wrap are wrapped again. -/
def RotationReaches (spared : DeviceRecord P → Prop) (w : WrapWorld P) : Prop :=
  (w.vault.inner.bind (·.envelopeVaultKey)).isSome → ∀ d ∈ w.devices, d.revokedAt = none →
    ¬ spared d → d.wrappedVaultKeyKyber = none ∧ (d.wrappedVaultKey.isSome → Rewraps w d)

/-- Whether the caller of a request is an admin, and which one. -/
def IsAdmin (headers : HeaderMap) (caller : AuthorizedCaller) (w : WrapWorld P) : Prop :=
  ((Acl.requireRole headers .admin).run w.access).1 = .ok caller

/-- What an operation needs of the state in which it starts. A device that waits is accepted in
the first generation. An automatic wrap is for the device's own public key, and reads the
generation. A rotation to a new passphrase finds no wrap, and a revocation rotation wraps again
whatever wrap it finds. -/
def WrapOp.Safe (op : WrapOp P) (w : WrapWorld P) : Prop :=
  match op with
  | .accept _ _ deviceId _ => AwaitsWrap deviceId w → (∃ secret, OwnerSecret w.vault secret) →
    MemorySynced w.vault ∧ ∃ envelopeKey, KeyInForce w.vault envelopeKey 1
  | .add faults _ req => LiveEnrolled req.deviceId w → (∃ secret, OwnerSecret w.vault secret) →
    MemorySynced w.vault ∧ (∀ publicKey, req.publicKey = some publicKey →
      publicKey = w.publicKey req.deviceId) ∧
    (faults.vaultParams = true → ∃ envelopeKey, KeyInForce w.vault envelopeKey 1)
  | .enrol _ _ => True
  | .revoke headers deviceId => ∀ caller d, IsAdmin headers caller w →
    caller.deviceId ≠ deviceId → w.access.device? deviceId = some d → d.revokedAt = none →
    RotationReaches (·.deviceId = deviceId) w
  | .remove headers userId => ∀ caller m, IsAdmin headers caller w →
    caller.userId ≠ userId → w.access.member? userId caller.vaultId = some m → m.role ≠ "owner" →
    RotationReaches (·.userId = userId) w
  | .rotateForRevocation => RotationReaches (fun _ => False) w
  | .rotateVaultKey newPassphrase => ∀ envelopeKey,
    w.vault.inner.bind (·.envelopeVaultKey) = some envelopeKey →
    VaultKeyStore.RotationReady newPassphrase envelopeKey w.vault →
    ∀ d ∈ w.devices, d.wrappedVaultKey = none ∧ d.wrappedVaultKeyKyber = none

/-- An operation that replaces the vault key starts when nothing is in progress, and nothing else
starts before it has ended. No device enrols while it is given a wrap, nor when it has one. -/
def WrapEvent.Guarded (event : WrapEvent P) (s : WrapSystem P) : Prop :=
  match event with
  | .start op => op.Safe s.world ∧ (∀ t ∈ s.tasks, t.1.rotates = false) ∧
    (op.rotates = true → s.tasks = []) ∧
    (∀ t ∈ s.tasks, ∀ deviceId, op.wraps = some deviceId → t.1.enrols ≠ some deviceId) ∧
    (∀ t ∈ s.tasks, ∀ deviceId, op.enrols = some deviceId → t.1.wraps ≠ some deviceId)
  | .stmt i => ∀ t, s.tasks[i]? = some t → ∀ deviceId, t.1.enrols = some deviceId →
    ∀ d ∈ s.world.devices, d.deviceId = deviceId →
      d.wrappedVaultKey = none ∧ d.wrappedVaultKeyKyber = none

end OmniDrive
