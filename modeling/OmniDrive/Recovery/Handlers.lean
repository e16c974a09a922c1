import OmniDrive.Access.Acl
import OmniDrive.Vault.Rotation

/-!
# Recovery phrases

The table of recovery keys and the handlers of `api/recovery.rs`: a phrase of 24 words wraps the
envelope key of the time it is generated, and a restore unwraps that copy and wraps it again
under a new passphrase. The words and the key that they give are those of another package.
-/

namespace OmniDrive

open StatementProgram Tables

/-- The phrases of `bip39` and the key that `derive_recovery_key` cuts from their seed. -/
structure MnemonicScheme (P : Primitives) where
  Mnemonic : Type
  /-- The phrase of a drawn entropy. -/
  fromEntropy : ℕ → Mnemonic
  text : Mnemonic → String
  /-- Read a trimmed text of 24 words with a valid checksum. -/
  parse : String → Option Mnemonic
  recoveryKey : Mnemonic → P.Key

/-- A phrase is read back from its text. -/
structure MnemonicScheme.Lawful {P : Primitives} (M : MnemonicScheme P) : Prop where
  parse_text : ∀ m, M.parse (M.text m) = some m

/-- A row of `vault_recovery_keys`. -/
structure RecoveryKeyRecord (P : Primitives) where
  id : ℤ
  vaultId : String
  wrappedVaultKey : Sized P.Wrapped
  vkGeneration : ℤ
  createdAt : ℤ
  createdBy : Option String
  revokedAt : Option ℤ := none

/-- The access tables and the key store, with the recovery keys and what limits their use. -/
structure RecoveryWorld (P : Primitives) where
  access : AccessWorld P
  recoveryKeys : List (RecoveryKeyRecord P) := []
  /-- The largest id ever assigned. -/
  recoverySequence : ℤ := 0
  /-- The times of the restores and failed restores in the audit log. -/
  restoreAttempts : List ℤ := []
  recoveryUnlockedUntil : ℤ := 0

namespace RecoveryWorld

variable {P : Primitives}

def vault (w : RecoveryWorld P) : VaultWorld P := w.access.vault

def withVault (vault : VaultWorld P) (w : RecoveryWorld P) : RecoveryWorld P :=
  { w with access := { w.access with vault } }

def now (w : RecoveryWorld P) : ℤ := w.access.now

@[simp] theorem vault_withVault (v : VaultWorld P) (w : RecoveryWorld P) :
    (w.withVault v).vault = v := rfl

@[simp] theorem recoveryKeys_withVault (v : VaultWorld P) (w : RecoveryWorld P) :
    (w.withVault v).recoveryKeys = w.recoveryKeys := rfl

end RecoveryWorld

variable {P : Primitives} {α ε : Type}

/-- A program of the recovery handlers. -/
abbrev RecoveryProg (P : Primitives) (α : Type) := Prog (RecoveryWorld P) ApiError α

/-- Run a check of the access control. -/
def onAccess (p : ApiProg P α) : RecoveryProg P α :=
  p.zoom (·.access) fun access w => { w with access }

/-- Run a program of the key store, with its errors told to the caller. -/
def onVaultKeys (told : VaultError → ApiError) (p : VaultProg P α) : RecoveryProg P α :=
  (p.zoom RecoveryWorld.vault RecoveryWorld.withVault).mapError told

/-- A run of the key store inside a recovery handler. -/
theorem run_onVaultKeys (told : VaultError → ApiError) (p : VaultProg P α) (w : RecoveryWorld P) :
    (onVaultKeys told p).run w =
      ((p.run w.vault).1.mapError told, w.withVault (p.run w.vault).2) := by
  rw [onVaultKeys, Prog.run_mapError, Prog.run_zoom RecoveryWorld.vault RecoveryWorld.withVault]
  · exact fun _ _ => rfl
  · exact fun _ _ _ => rfl
  · exact fun _ => rfl

/-- A run of an access check inside a recovery handler. -/
theorem run_onAccess (p : ApiProg P α) (w : RecoveryWorld P) :
    (onAccess p).run w = ((p.run w.access).1, { w with access := (p.run w.access).2 }) := by
  rw [onAccess, Prog.run_zoom (fun v : RecoveryWorld P => v.access)
    fun access v => { v with access }]
  · exact fun _ _ => rfl
  · exact fun _ _ _ => rfl
  · exact fun _ => rfl

namespace Recovery

/-! ## `recovery_keys.rs` -/

/-- Add a row under the next automatic id. -/
def appendRecoveryKey (vaultId : String) (wrapped : P.Wrapped) (vkGeneration : ℤ)
    (createdBy : Option String) (w : RecoveryWorld P) : RecoveryWorld P :=
  { w with
    recoveryKeys := w.recoveryKeys ++
      [{ id := w.recoverySequence + 1, vaultId, wrappedVaultKey := .exact wrapped, vkGeneration,
         createdAt := w.now, createdBy }]
    recoverySequence := w.recoverySequence + 1 }

def insertRecoveryKey (vaultId : String) (wrapped : P.Wrapped) (vkGeneration : ℤ)
    (createdBy : Option String) : RecoveryProg P ℤ :=
  Prog.execReturning (appendRecoveryKey vaultId wrapped vkGeneration createdBy)
    fun w => w.recoverySequence + 1

/-- A key of the vault that has not been revoked. -/
def isActive (vaultId : String) (r : RecoveryKeyRecord P) : Bool :=
  r.vaultId = vaultId && r.revokedAt.isNone

/-- The active keys of a vault, the latest first. -/
def activeKeys (vaultId : String) (w : RecoveryWorld P) : List (RecoveryKeyRecord P) :=
  orderBy (fun r => -r.createdAt) (w.recoveryKeys.filter (isActive vaultId))

def listActiveRecoveryKeys (vaultId : String) : RecoveryProg P (List (RecoveryKeyRecord P)) :=
  Prog.query (activeKeys vaultId)

def revokeAllRecoveryKeys (vaultId : String) : RecoveryProg P ℕ :=
  Prog.execReturning
    (fun w => { w with
      recoveryKeys := updateWhere (isActive vaultId) (fun r => { r with revokedAt := some w.now })
        w.recoveryKeys })
    fun w => (w.recoveryKeys.filter (isActive vaultId)).length

/-! ## Handlers -/

def vaultNotInitialized : ApiError := .badRequest "vault_not_initialized" "vault not initialized"

/-- The vault row; none is an error. -/
def requireVault : RecoveryProg P (VaultRecord P) := do
  let vault ← Prog.query fun w : RecoveryWorld P => w.vault.db.vaultState
  Prog.ofOption vaultNotInitialized vault

/-- A locked vault is told in the words of the page. -/
def tellLocked : VaultError → ApiError
  | .locked => .badRequest "vault_locked"
      "odblokuj Skarbiec przed wygenerowaniem klucza odzyskiwania"
  | _ => .internal "vault error"

structure GenerateResponse (M : MnemonicScheme P) where
  mnemonic : M.Mnemonic
  vkGeneration : ℤ
  recoveryKeyId : ℤ

variable (M : MnemonicScheme P)

def generateRecoveryKey (headers : HeaderMap) : RecoveryProg P (GenerateResponse M) := do
  let caller ← onAccess (Acl.requireRole headers .owner)
  let envelopeKey ← onVaultKeys tellLocked VaultKeyStore.requireEnvelopeKey
  let vault ← requireVault
  let vkGeneration := vault.vaultKeyGeneration.getD 1
  let mnemonic ← onVaultKeys tellLocked (draw M.fromEntropy)
  let recoveryKeyId ← insertRecoveryKey caller.vaultId
    (wrapKey (M.recoveryKey mnemonic) envelopeKey) vkGeneration (some caller.userId)
  pure { mnemonic, vkGeneration, recoveryKeyId }

/-- A request to restore, with the seconds the rate limiter asks to wait, if it does. -/
structure RestoreRequest where
  retryAfter : Option ℕ
  mnemonic : String
  newPassphrase : String

structure RestoreResponse where
  vkGeneration : ℤ
  deriving DecidableEq, Repr

def checkRestoreRequest (req : RestoreRequest) : Except ApiError Unit :=
  match req.retryAfter with
  | some seconds => .error (.tooManyRequests seconds "too many recovery attempts")
  | none =>
    if req.newPassphrase = "" then
      .error (.badRequest "empty_passphrase" "new passphrase cannot be empty")
    else .ok ()

/-- A restore attempt within the last day blocks the next, unless an operator lifted that. -/
def isBlocked (w : RecoveryWorld P) : Bool :=
  w.recoveryUnlockedUntil ≤ w.now && w.restoreAttempts.any (w.now - 86400 ≤ ·)

def checkBlocked (blocked : Bool) : Except ApiError Unit :=
  if blocked then .error (.forbidden ("recovery blocked: a restore attempt was recorded within " ++
    "the last 24h on this active vault"))
  else .ok ()

/-- Record a restore or a failed restore in the audit log. -/
def recordAttempt : RecoveryProg P Unit :=
  Prog.exec fun w => { w with restoreAttempts := w.restoreAttempts ++ [w.now] }

/-- The value, or a recorded failure. -/
def orRecordFailure (e : ApiError) : Option α → RecoveryProg P α
  | some a => pure a
  | none => do
    recordAttempt
    .fail e

/-- The first row that unwraps under the recovery key. -/
def findEnvelopeKey (recoveryKey : P.Key) (records : List (RecoveryKeyRecord P)) : Option P.Key :=
  records.findSome? fun r =>
    r.wrappedVaultKey.tryInto.bind fun wrapped => (unwrapKey recoveryKey wrapped).toOption

def checkAnyActive (vaultId : String) (records : List (RecoveryKeyRecord P)) :
    Except ApiError Unit :=
  if records.isEmpty then .error (.notFound "recovery_key" vaultId) else .ok ()

/-- An invalid cost parameter is named. -/
def tellConfig : VaultError → ApiError
  | .invalidConfig field => .internal ("invalid " ++ field)
  | _ => .internal "crypto error"

/-- New root keys under a fresh salt and the stored costs. -/
def deriveNewRoot (newPassphrase : String) :
    VaultProg P (RootKdfParams × RootKeys P) := do
  let cfg ← Db.getVaultConfig
  let cfg ← Prog.ofOption (.invalidConfig "missing vault_config") cfg
  let newSalt ← randomSalt
  let params ← Prog.ofExcept (toRootKdfParams { cfg with salt := newSalt })
  let newRootKeys ← Prog.ofOption (.crypto .argon2) (deriveRootKeys P newPassphrase params)
  pure (params, newRootKeys)

/-- The envelope key comes from the row, the generation stays, the keys in memory stay too. -/
def restoreFromRecoveryKey (req : RestoreRequest) : RecoveryProg P RestoreResponse := do
  Prog.ofExcept (checkRestoreRequest req)
  let vault ← requireVault
  let blocked ← Prog.query isBlocked
  Prog.ofExcept (checkBlocked blocked)
  let mnemonic ← orRecordFailure (.badRequest "invalid_mnemonic" "invalid BIP-39 mnemonic")
    (M.parse req.mnemonic)
  let records ← listActiveRecoveryKeys vault.vaultId
  Prog.ofExcept (checkAnyActive vault.vaultId records)
  let envelopeKey ← orRecordFailure
    (.unauthorized "recovery mnemonic did not match any active key")
    (findEnvelopeKey (M.recoveryKey mnemonic) records)
  let (params, newRootKeys) ← onVaultKeys tellConfig (deriveNewRoot req.newPassphrase)
  let generation := vault.vaultKeyGeneration.getD 1
  onVaultKeys tellConfig (Db.rotateVaultState params.salt params.toArgon2Params
    (wrapKey newRootKeys.kek envelopeKey) generation)
  onVaultKeys tellConfig (Db.setVaultConfig params.toRecord)
  recordAttempt
  pure { vkGeneration := generation }

def revokeRecoveryKeys (headers : HeaderMap) : RecoveryProg P ℕ := do
  let caller ← onAccess (Acl.requireRole headers .owner)
  revokeAllRecoveryKeys caller.vaultId

end Recovery

end OmniDrive
