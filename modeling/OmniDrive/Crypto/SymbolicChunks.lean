import OmniDrive.Crypto.Chunks
import OmniDrive.Crypto.Symbolic

/-!
# A symbolic instance of the chunk primitives

The chunk primitives on symbolic keys. A ciphertext is its plaintext under a tag that names the
key, an HMAC is the key and the front of the message, and the parity shard is the sum of the two
data shards. The instance shows that the laws of the primitives are consistent and lets runs of
the storage code be evaluated.
-/

namespace OmniDrive

open ByteFields

/-- The first `n` bytes, filled up with zeros. -/
def padTo (n : ℕ) (bytes : Bytes) : FixedBytes n :=
  ⟨(bytes ++ List.replicate n 0).take n, by simp⟩

/-- A key told apart by its kind and its number. -/
def SymbolicKey.code : SymbolicKey → Bytes
  | .zero => [0]
  | .random n => [1, UInt8.ofNat n]
  | .argon2 _ _ => [2]
  | .expand _ info => [3, UInt8.ofNat info.length]
  | .extract _ => [4]
  | .shared _ _ => [5]
  | .point _ => [6]

/-- The bytewise sum of two shards. -/
def addShards (a b : Bytes) : Bytes := List.zipWith (· ^^^ ·) a b

/-- The third of three shards from the two that are present. -/
def thirdShard : List (Option Bytes) → Option (List Bytes)
  | [some a, some b, _] => some [a, b, addShards a b]
  | [some a, none, some c] => some [a, addShards a c, c]
  | [none, some b, some c] => some [addShards b c, b, c]
  | _ => none

/-- The text whose characters are the bytes. -/
def byteText (bytes : Bytes) : String := String.ofList (bytes.map fun b => Char.ofNat b.toNat)

/-- The chunk primitives on symbolic keys. -/
def symbolicChunks : ChunkPrimitives symbolic where
  hmacSha256 k m := padTo 32 (SymbolicKey.code k ++ m)
  sha256Hex := byteText
  gcmEncrypt k _ _ m := (m, padTo 16 (SymbolicKey.code k))
  gcmDecrypt k _ _ c tag := if tag = padTo 16 (SymbolicKey.code k) then some c else none
  randomNonce n := padTo 12 [UInt8.ofNat n]
  rsEncode := addShards
  rsReconstruct := thirdShard

/-- Adding a shard twice gives back the other one. -/
theorem addShards_cancel_left {a b : Bytes} (h : a.length = b.length) :
    addShards a (addShards a b) = b := by
  induction a generalizing b with
  | nil =>
    rw [List.length_nil] at h
    rw [List.length_eq_zero_iff.mp h.symm]
    rfl
  | cons x a ih =>
    cases b with
    | nil => simp at h
    | cons y b =>
      have htail := ih (b := b) (by simpa using h)
      have hhead : x ^^^ (x ^^^ y) = y := by rw [← UInt8.xor_assoc, UInt8.xor_self, UInt8.zero_xor]
      simp only [addShards, List.zipWith_cons_cons] at htail ⊢
      rw [htail, hhead]

/-- The sum does not depend on the order of the shards. -/
theorem addShards_comm (a b : Bytes) : addShards a b = addShards b a := by
  rw [addShards, addShards, List.zipWith_comm]
  congr 1
  funext x y
  exact UInt8.xor_comm y x

/-- A byte is read back from its character. -/
theorem toNat_char_of_byte (b : UInt8) : (Char.ofNat b.toNat).toNat = b.toNat := by
  have hvalid : b.toNat.isValidChar := Or.inl (by have := b.toNat_lt; omega)
  rw [Char.ofNat, dif_pos hvalid]
  rfl

/-- The symbolic chunk primitives satisfy every law. -/
theorem symbolicChunks_ideal : symbolicChunks.Ideal where
  gcmDecrypt_gcmEncrypt k n aad m := if_pos rfl
  length_gcmEncrypt k n aad m := rfl
  sha256Hex_inj a b h := by
    have hlists := String.ofList_injective h
    have hbyte : Function.Injective fun b : UInt8 => Char.ofNat b.toNat := by
      intro x y hxy
      have hnat := congrArg Char.toNat hxy
      simp only [toNat_char_of_byte] at hnat
      exact UInt8.toNat_inj.mp hnat
    exact List.map_injective_iff.mpr hbyte hlists
  length_rsEncode h := by
    show (addShards _ _).length = _
    rw [addShards, List.length_zipWith, h, Nat.min_self]
  rsReconstruct_of_two := by
    intro a b s₀ s₁ s₂ hlen _ h₀ h₁ h₂ htwo
    rcases h₀ with rfl | rfl <;> rcases h₁ with rfl | rfl <;> rcases h₂ with rfl | rfl
    · simp at htwo
    · simp at htwo
    · simp at htwo
    · show some [addShards b (addShards a b), b, addShards a b] = some [a, b, addShards a b]
      rw [addShards_comm a b, addShards_cancel_left hlen.symm]
    · simp at htwo
    · show some [a, addShards a (addShards a b), addShards a b] = some [a, b, addShards a b]
      rw [addShards_cancel_left hlen]
    · rfl
    · rfl

end OmniDrive
