import Mathlib.Algebra.Ring.Nat
import Mathlib.Data.List.Basic
import Mathlib.Data.List.Induction

/-!
# Fields of byte strings

Slices by position, pieces, big-endian numbers and byte strings of a fixed length, for formats
that are read back field by field.
-/

namespace ByteFields

variable {α : Type}

/-! ## Slices -/

/-- The elements from position `i` up to, but not including, position `j`. -/
def slice (i j : ℕ) (l : List α) : List α := (l.take j).drop i

@[simp] theorem length_slice (i j : ℕ) (l : List α) : (slice i j l).length = min j l.length - i := by
  rw [slice, List.length_drop, List.length_take]

/-- A slice with everything in front of it cut off. -/
theorem slice_eq_take_drop (i n : ℕ) (l : List α) : slice i (i + n) l = (l.drop i).take n := by
  rw [slice, List.drop_take, Nat.add_sub_cancel_left]

/-- A field is the slice at the length of what stands in front of it. -/
theorem slice_field {i j : ℕ} {a b c : List α} (ha : a.length = i) (hb : i + b.length = j) :
    slice i j (a ++ (b ++ c)) = b := by
  rw [← hb, slice_eq_take_drop, ← ha, List.drop_left, List.take_left]

/-- The last field is the slice up to the end. -/
theorem slice_last {i j : ℕ} {a b : List α} (ha : a.length = i) (hb : i + b.length = j) :
    slice i j (a ++ b) = b := by
  have hfield := slice_field (c := []) ha hb
  rwa [List.append_nil] at hfield

/-- What is left from a position on is a slice and what is left behind it. -/
theorem drop_eq_slice_append {i j : ℕ} (h : i ≤ j) (l : List α) :
    l.drop i = slice i j l ++ l.drop j := by
  obtain ⟨n, rfl⟩ := Nat.exists_eq_add_of_le h
  rw [slice_eq_take_drop, ← List.drop_drop, List.take_append_drop]

/-- The slice up to the end is what is left. -/
theorem slice_to_end (i : ℕ) (l : List α) : slice i l.length l = l.drop i := by
  rw [slice, List.take_length]

/-- A slice of one position. -/
theorem slice_single {i : ℕ} {l : List α} (h : i < l.length) (fallback : α) :
    slice i (i + 1) l = [l.getD i fallback] := by
  rw [slice_eq_take_drop, List.drop_eq_getElem_cons h, List.getD_eq_getElem?_getD,
    List.getElem?_eq_getElem h]
  rfl

/-- The slice of a whole list. -/
theorem slice_all {n : ℕ} {l : List α} (h : l.length = n) : slice 0 n l = l := by
  rw [slice, List.drop_zero, ← h, List.take_length]

/-- A slice behind the front is a slice of the rest. -/
theorem slice_skip {n i j : ℕ} {a l : List α} (ha : a.length = n) (hi : n ≤ i) :
    slice i j (a ++ l) = slice (i - n) (j - n) l := by
  rw [slice, slice, ← ha, List.take_append, List.drop_append, List.length_take]
  have hfront : (a.take j).drop i = [] := by
    rw [List.drop_eq_nil_iff, List.length_take]
    omega
  rw [hfront, List.nil_append]
  by_cases hj : a.length ≤ j
  · rw [Nat.min_eq_right hj]
  · have hzero : j - a.length = 0 := by omega
    rw [hzero, List.take_zero, List.drop_nil, List.drop_nil]

/-- The front is the slice of its length. -/
theorem slice_head {n : ℕ} {a l : List α} (ha : a.length = n) : slice 0 n (a ++ l) = a := by
  rw [slice, List.drop_zero, ← ha, List.take_left]

/-! ## Pieces of a string -/

/-- The pieces of `n` elements of a list; the last one may be shorter. -/
def piecesOf (n : ℕ) : ℕ → List α → List (List α)
  | 0, _ => []
  | fuel + 1, l => if (l.take n).length = 0 then [] else l.take n :: piecesOf n fuel (l.drop n)

/-- With enough fuel the pieces make up the whole list. -/
theorem flatten_piecesOf {n : ℕ} (hn : 0 < n) {fuel : ℕ} {l : List α} (h : l.length ≤ fuel) :
    (piecesOf n fuel l).flatten = l := by
  induction fuel generalizing l with
  | zero =>
    have hnil : l = [] := List.length_eq_zero_iff.mp (by omega)
    rw [hnil]
    rfl
  | succ fuel ih =>
    rw [piecesOf]
    by_cases hempty : (l.take n).length = 0
    · have hnil : l = [] := by
        rw [List.length_take] at hempty
        exact List.length_eq_zero_iff.mp (by omega)
      rw [if_pos hempty, hnil]
      rfl
    · have hrest : (l.drop n).length ≤ fuel := by
        rw [List.length_drop]
        rw [List.length_take] at hempty
        omega
      rw [if_neg hempty, List.flatten_cons, ih hrest, List.take_append_drop]

/-- No piece is empty. -/
theorem ne_nil_of_mem_piecesOf {n fuel : ℕ} {l piece : List α} (h : piece ∈ piecesOf n fuel l) :
    piece ≠ [] := by
  induction fuel generalizing l with
  | zero => cases h
  | succ fuel ih =>
    rw [piecesOf] at h
    by_cases hempty : (l.take n).length = 0
    · rw [if_pos hempty] at h
      cases h
    · rw [if_neg hempty] at h
      rcases List.mem_cons.mp h with hhead | hrest
      · intro hnil
        rw [hhead] at hnil
        rw [hnil] at hempty
        exact hempty rfl
      · exact ih hrest

/-! ## Big-endian numbers -/

/-- The last `k` base-256 digits of a number, most significant first. -/
def toBe : ℕ → ℕ → List UInt8
  | 0, _ => []
  | k + 1, n => toBe k (n / 256) ++ [UInt8.ofNat n]

/-- The number with these base-256 digits, most significant first. -/
def ofBe (bytes : List UInt8) : ℕ := bytes.foldl (fun acc b => acc * 256 + b.toNat) 0

@[simp] theorem length_toBe (k n : ℕ) : (toBe k n).length = k := by
  induction k generalizing n with
  | zero => rfl
  | succ k ih => rw [toBe, List.length_append, ih, List.length_singleton]

/-- The last byte is the least significant digit. -/
theorem ofBe_append_singleton (bytes : List UInt8) (b : UInt8) :
    ofBe (bytes ++ [b]) = ofBe bytes * 256 + b.toNat := by
  rw [ofBe, List.foldl_append]
  rfl

/-- Reading a number back gives it modulo the size of its field. -/
theorem ofBe_toBe (k n : ℕ) : ofBe (toBe k n) = n % 256 ^ k := by
  induction k generalizing n with
  | zero => rw [Nat.pow_zero, Nat.mod_one]; rfl
  | succ k ih =>
    have hbyte : (UInt8.ofNat n).toNat = n % 256 := rfl
    rw [toBe, ofBe_append_singleton, ih, hbyte, Nat.pow_succ, Nat.mul_comm (256 ^ k) 256,
      Nat.mod_mul]
    omega

/-- A number that fits its field is read back unchanged. -/
theorem ofBe_toBe_of_lt {k n : ℕ} (h : n < 256 ^ k) : ofBe (toBe k n) = n := by
  rw [ofBe_toBe, Nat.mod_eq_of_lt h]

/-- The number in a field fits the field. -/
theorem ofBe_lt (bytes : List UInt8) : ofBe bytes < 256 ^ bytes.length := by
  induction bytes using List.reverseRecOn with
  | nil => exact Nat.one_pos
  | append_singleton front b ih =>
    have hbyte : b.toNat < 256 := b.toNat_lt
    rw [ofBe_append_singleton, List.length_append, List.length_singleton, Nat.pow_succ]
    omega

/-- Writing the number of a field back gives the field. -/
theorem toBe_ofBe (bytes : List UInt8) : toBe bytes.length (ofBe bytes) = bytes := by
  induction bytes using List.reverseRecOn with
  | nil => rfl
  | append_singleton front b ih =>
    have hbyte : b.toNat < 256 := b.toNat_lt
    have hfront : (ofBe front * 256 + b.toNat) / 256 = ofBe front := by omega
    have hlast : UInt8.ofNat (ofBe front * 256 + b.toNat) = b := by
      apply UInt8.toNat.inj
      rw [UInt8.toNat_ofNat']
      omega
    rw [ofBe_append_singleton, List.length_append, List.length_singleton, toBe, hfront, ih, hlast]

/-! ## Little-endian numbers -/

/-- The last `k` base-256 digits of a number, least significant first. -/
def toLe (k n : ℕ) : List UInt8 := (toBe k n).reverse

/-- The number with these base-256 digits, least significant first. -/
def ofLe (bytes : List UInt8) : ℕ := ofBe bytes.reverse

@[simp] theorem length_toLe (k n : ℕ) : (toLe k n).length = k := by
  rw [toLe, List.length_reverse, length_toBe]

/-- A number that fits its field is read back unchanged. -/
theorem ofLe_toLe_of_lt {k n : ℕ} (h : n < 256 ^ k) : ofLe (toLe k n) = n := by
  rw [ofLe, toLe, List.reverse_reverse, ofBe_toBe_of_lt h]

/-- The number in a field fits the field. -/
theorem ofLe_lt (bytes : List UInt8) : ofLe bytes < 256 ^ bytes.length := by
  have hlt := ofBe_lt bytes.reverse
  rwa [List.length_reverse] at hlt

/-- Writing the number of a field back gives the field. -/
theorem toLe_ofLe {n : ℕ} {bytes : List UInt8} (h : bytes.length = n) :
    toLe n (ofLe bytes) = bytes := by
  have hback := toBe_ofBe bytes.reverse
  rw [List.length_reverse] at hback
  rw [← h, toLe, ofLe, hback, List.reverse_reverse]

/-! ## Byte strings of a fixed length -/

/-- A byte string of length `n`. -/
structure FixedBytes (n : ℕ) where
  bytes : List UInt8
  length_bytes : bytes.length = n
  deriving DecidableEq

namespace FixedBytes

variable {n : ℕ}

attribute [simp] length_bytes

theorem ext {a b : FixedBytes n} (h : a.bytes = b.bytes) : a = b := by
  cases a
  cases b
  cases h
  rfl

/-- The checked conversion of a byte string. -/
def tryFrom (n : ℕ) (bytes : List UInt8) : Option (FixedBytes n) :=
  if h : bytes.length = n then some ⟨bytes, h⟩ else none

@[simp] theorem tryFrom_bytes (b : FixedBytes n) : tryFrom n b.bytes = some b :=
  dif_pos b.length_bytes

/-- The byte string of `n` zeros. -/
def zeros (n : ℕ) : FixedBytes n := ⟨List.replicate n 0, List.length_replicate⟩

end FixedBytes

end ByteFields
