import OmniDrive.Crypto.Primitives

/-!
# A symbolic instance of the ideal primitives

Keys are terms that record how they were made, so distinct terms are distinct keys. The
instance shows the ideal laws are consistent and lets runs of the key code be evaluated.
-/

namespace OmniDrive

/-- A key as the term of its construction. -/
inductive SymbolicKey where
  | zero
  | random (n : ℕ)
  | argon2 (passphrase : String) (params : RootKdfParams)
  | expand (key : SymbolicKey) (info : String)
  | extract (key : SymbolicKey)
  | shared (mine theirs : SymbolicKey)
  | point (secret : SymbolicKey)
  deriving DecidableEq, Repr

/-- A sealed plaintext together with everything that was authenticated. -/
structure SymbolicSealed where
  key : SymbolicKey
  nonce : ℕ
  aad : String
  plaintext : Sized SymbolicKey
  deriving DecidableEq, Repr

/-- The symbolic primitives. A wrap is the pair of its wrapping key and its plaintext key. -/
def symbolic : Primitives where
  Key := SymbolicKey
  Wrapped := SymbolicKey × SymbolicKey
  Sealed := SymbolicSealed
  decidableKey := inferInstance
  argon2 passphrase params := some (.argon2 passphrase params)
  hkdfExpand := .expand
  hkdfExtract := .extract
  kwWrap k m := (k, m)
  kwUnwrap k w := if w.1 = k then some w.2 else none
  gcmSeal k n aad m := ⟨k, n, aad, m⟩
  gcmOpen k aad c := if c.key = k ∧ c.aad = aad then some c.plaintext else none
  zeroKey := .zero
  x25519 := .shared
  x25519Public := .point
  mlKem768 n := (List.replicate 1184 (UInt8.ofNat n), List.replicate 2400 (UInt8.ofNat n))
  randomKey := .random
  randomSalt n := List.replicate n 0

/-- The symbolic primitives satisfy every ideal law. -/
theorem symbolic_ideal : symbolic.Ideal where
  kwUnwrap_kwWrap k m := if_pos rfl
  kwUnwrap_other m h := if_neg h
  gcmOpen_gcmSeal k n aad m := if_pos ⟨rfl, rfl⟩
  gcmOpen_other n aad aad' m h := if_neg fun hc => h hc.1
  argon2_inj h h' := by
    have heq := Option.some.inj (h.trans h'.symm)
    injection heq with hp hparams
    exact ⟨hp, hparams⟩
  hkdfExpand_inj h := by
    injection h with hk hinfo
    exact ⟨hk, hinfo⟩
  randomKey_inj a b h := by
    injection h
  randomKey_ne_expand n k info h := by
    injection h
  randomSalt_inj a b h := by
    have hlen : (List.replicate a (0 : UInt8)).length = (List.replicate b (0 : UInt8)).length :=
      congrArg List.length h
    simpa using hlen

end OmniDrive
