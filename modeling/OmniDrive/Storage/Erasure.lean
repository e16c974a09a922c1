import OmniDrive.Storage.Layout

/-!
# Shards

The packer cuts a ciphertext into two data shards of one length and adds a parity shard. The
downloader puts the ciphertext together again from any two of the three.
-/

namespace OmniDrive

open StatementProgram ByteFields

def dataShards : ℕ := 2

def parityShards : ℕ := 1

def totalShards : ℕ := dataShards + parityShards

variable {P : Primitives} (C : ChunkPrimitives P)

namespace Packer

/-- `len.div_ceil(DATA_SHARDS).max(1)`. -/
def shardLen (ciphertext : Bytes) : ℕ := max ((ciphertext.length + 1) / dataShards) 1

/-- The data shard that holds the bytes from `index * len` on, filled up with zeros. -/
def dataShard (len index : ℕ) (ciphertext : Bytes) : Bytes :=
  (List.range len).map fun position => ciphertext.getD (index * len + position) 0

def splitCiphertextIntoShards (ciphertext : Bytes) : List Bytes :=
  let len := shardLen ciphertext
  let first := dataShard len 0 ciphertext
  let second := dataShard len 1 ciphertext
  [first, second, C.rsEncode first second]

end Packer

namespace Downloader

def reconstructCiphertext (pack : PackRecord) (shards : List (Option Bytes)) :
    Except DownloaderError Bytes := do
  if shards.length ≠ totalShards then .error (.invalidPackRecord "shard count mismatch")
  else
    let shardLen ← toUsize pack.shardSize "shard size"
    if shards.any fun shard => shard.any fun bytes => bytes.length ≠ shardLen then
      .error (.invalidPackRecord "shard size mismatch")
    else
      match C.rsReconstruct shards with
      | none => .error .erasureCoding
      | some all =>
        let cipherSize ← toUsize pack.cipherSize "cipher size"
        let ciphertext := (all.take dataShards).flatten
        if ciphertext.length < cipherSize then
          .error (.invalidPackRecord "reconstructed ciphertext shorter than expected")
        else pure (ciphertext.take cipherSize)

end Downloader

open Packer Downloader

@[simp] theorem length_dataShard (len index : ℕ) (ciphertext : Bytes) :
    (dataShard len index ciphertext).length = len := by
  rw [dataShard, List.length_map, List.length_range]

/-- Two data shards of a sufficient length begin with the ciphertext. -/
theorem take_dataShards {len : ℕ} {ciphertext : Bytes} (h : ciphertext.length ≤ 2 * len) :
    (dataShard len 0 ciphertext ++ dataShard len 1 ciphertext).take ciphertext.length =
      ciphertext := by
  apply List.ext_getElem
  · simp only [List.length_take, List.length_append, length_dataShard]
    omega
  · intro i hleft hi
    rw [List.getElem_take]
    by_cases hfirst : i < len
    · rw [List.getElem_append_left (by rwa [length_dataShard])]
      simp [dataShard, List.getElem?_eq_getElem hi]
    · have hindex : len + (i - len) = i := by omega
      rw [List.getElem_append_right (by rw [length_dataShard]; omega)]
      simp [dataShard, hindex, List.getElem?_eq_getElem hi]

/-- The shards of a ciphertext are long enough for it. -/
theorem length_le_two_shardLen (ciphertext : Bytes) :
    ciphertext.length ≤ 2 * shardLen ciphertext := by
  unfold shardLen dataShards
  omega

theorem shardLen_pos (ciphertext : Bytes) : 0 < shardLen ciphertext := by
  unfold shardLen
  omega

variable {C}

/-- All shards of a ciphertext have one length. -/
theorem length_of_mem_splitCiphertext (ideal : C.Ideal) {ciphertext shard : Bytes}
    (h : shard ∈ splitCiphertextIntoShards C ciphertext) :
    shard.length = shardLen ciphertext := by
  have hparity := ideal.length_rsEncode (a := dataShard (shardLen ciphertext) 0 ciphertext)
    (b := dataShard (shardLen ciphertext) 1 ciphertext) (by simp)
  rw [length_dataShard] at hparity
  simp only [splitCiphertextIntoShards, List.mem_cons, List.not_mem_nil, or_false] at h
  rcases h with h | h | h
  · rw [h, length_dataShard]
  · rw [h, length_dataShard]
  · rw [h, hparity]

/-- Three slots that hold shards of a ciphertext or nothing. -/
def SlotsOf (C : ChunkPrimitives P) (ciphertext : Bytes) (slots : List (Option Bytes)) : Prop :=
  List.Forall₂ (fun slot shard => slot = none ∨ slot = some shard) slots
    (splitCiphertextIntoShards C ciphertext)

/-- A slot with a shard of the right length passes the length check. -/
theorem slot_length {slot : Option Bytes} {shard : Bytes} {len : ℕ} (hlen : shard.length = len)
    (h : slot = none ∨ slot = some shard) : (slot.any fun bytes => bytes.length ≠ len) = false := by
  rcases h with hnone | hsome
  · rw [hnone, Option.any_none]
  · simp [hsome, hlen]

/-- Two slots that agree with the shards made of two data shards give back the front of these. -/
theorem reconstructCiphertext_codeword (ideal : C.Ideal) {pack : PackRecord} {a b : Bytes}
    {len cipherLen : ℕ} {slots : List (Option Bytes)} (ha : a.length = len) (hb : b.length = len)
    (hpos : 0 < len) (hshard : pack.shardSize = len) (hcipher : pack.cipherSize = cipherLen)
    (hfits : cipherLen ≤ 2 * len)
    (hslots : List.Forall₂ (fun slot shard => slot = none ∨ slot = some shard) slots
      [a, b, C.rsEncode a b])
    (htwo : 2 ≤ slots.countP Option.isSome) :
    reconstructCiphertext C pack slots = .ok ((a ++ b).take cipherLen) := by
  match slots, hslots with
  | [s₀, s₁, s₂], .cons h₀ (.cons h₁ (.cons h₂ .nil)) =>
    have hparity : (C.rsEncode a b).length = len := by
      rw [ideal.length_rsEncode (ha.trans hb.symm), ha]
    have hsizes : ([s₀, s₁, s₂].any fun slot => slot.any fun bytes =>
        bytes.length ≠ len) = false := by
      rw [List.any_eq_false]
      simp only [List.mem_cons, List.not_mem_nil, or_false, forall_eq_or_imp, forall_eq,
        Bool.not_eq_true]
      exact ⟨slot_length ha h₀, slot_length hb h₁, slot_length hparity h₂⟩
    have hall : C.rsReconstruct [s₀, s₁, s₂] = some [a, b, C.rsEncode a b] := by
      apply ideal.rsReconstruct_of_two (ha.trans hb.symm) _ h₀ h₁ h₂ htwo
      intro hnil
      rw [hnil] at ha
      exact Nat.ne_of_gt hpos ha.symm
    have hdata : ([a, b, C.rsEncode a b].take dataShards).flatten = a ++ b := by
      simp [dataShards]
    rw [reconstructCiphertext, if_neg (fun h => h rfl), hshard, toUsize_natCast,
      Prog.except_ok_bind, if_neg (by rw [hsizes]; decide), hall]
    simp only [hcipher, toUsize_natCast, Prog.except_ok_bind, hdata]
    rw [if_neg (by simp only [List.length_append]; omega)]
    rfl

/-- Any two of the three shards give back the ciphertext. -/
theorem reconstructCiphertext_of_two (ideal : C.Ideal) {pack : PackRecord} {ciphertext : Bytes}
    {slots : List (Option Bytes)} (hshard : pack.shardSize = shardLen ciphertext)
    (hcipher : pack.cipherSize = ciphertext.length) (hslots : SlotsOf C ciphertext slots)
    (htwo : 2 ≤ slots.countP Option.isSome) :
    reconstructCiphertext C pack slots = .ok ciphertext := by
  have hlong := length_le_two_shardLen ciphertext
  have hreconstruct := reconstructCiphertext_codeword ideal (length_dataShard _ 0 ciphertext)
    (length_dataShard _ 1 ciphertext) (shardLen_pos ciphertext) hshard hcipher hlong hslots htwo
  rw [hreconstruct, take_dataShards hlong]

end OmniDrive
