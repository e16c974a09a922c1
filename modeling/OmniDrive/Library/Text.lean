import Mathlib.Data.Char
import Mathlib.Data.List.Lex
import OmniDrive.Library.ByteFields

/-!
# Text as bytes and in order

The bytes of strings, the decimal numbers that are padded to a width, and their order. Padded
numbers of one width are ordered as the numbers are.
-/

namespace Text

/-! ## The bytes of a string -/

theorem toList_loop_eq (bs : ByteArray) (i : ℕ) (read : List UInt8) :
    ByteArray.toList.loop bs i read = read.reverse ++ bs.data.toList.drop i := by
  induction i, read using ByteArray.toList.loop.induct bs with
  | case1 i read hlt ih =>
    have hi : i < bs.data.toList.length := hlt
    have hbyte : bs.get! i = bs.data.toList[i] := getElem!_pos bs.data i hlt
    rw [ByteArray.toList.loop, if_pos hlt, ih, List.drop_eq_getElem_cons hi, hbyte,
      List.reverse_cons, List.append_assoc, List.singleton_append]
  | case2 i read hend =>
    have hlength : bs.data.toList.length ≤ i := Nat.le_of_not_lt hend
    rw [ByteArray.toList.loop, if_neg hend, List.drop_eq_nil_of_le hlength, List.append_nil]

theorem toList_eq_data (bs : ByteArray) : bs.toList = bs.data.toList := by
  rw [ByteArray.toList, toList_loop_eq, List.drop_zero, List.reverse_nil, List.nil_append]

/-- The bytes of a string determine the string. -/
theorem toUTF8_toList_inj {s t : String} : s.toUTF8.toList = t.toUTF8.toList ↔ s = t := by
  constructor
  · intro h
    rw [toList_eq_data, toList_eq_data] at h
    exact String.toByteArray_inj.mp (ByteArray.ext (Array.toList_inj.mp h))
  · rintro rfl
    rfl

/-- A character of ASCII. -/
def IsAscii (c : Char) : Prop := c.toNat < 128

/-- The byte of a character of ASCII. -/
def asciiByte (c : Char) : UInt8 := UInt8.ofNat c.toNat

/-- The bytes of an ASCII string are its characters. -/
theorem toUTF8_toList_ofList {l : List Char} (h : ∀ c ∈ l, IsAscii c) :
    (String.ofList l).toUTF8.toList = l.map asciiByte := by
  have hencode : l.flatMap String.utf8EncodeChar = l.map asciiByte := by
    induction l with
    | nil => rfl
    | cons c rest ih =>
      have hc : c.val.toNat ≤ 0x7f := Nat.le_of_lt_succ (h c List.mem_cons_self)
      have hbyte : String.utf8EncodeChar c = [asciiByte c] := by
        change (if c.val.toNat ≤ 0x7f then [UInt8.ofNat c.val.toNat] else _) = _
        rw [if_pos hc]
        rfl
      rw [List.flatMap_cons, hbyte, ih fun c hc => h c (List.mem_cons_of_mem _ hc)]
      rfl
  change (String.ofList l).toByteArray.toList = _
  rw [String.toByteArray_ofList, List.utf8Encode, toList_eq_data, List.toList_data_toByteArray,
    hencode]

/-! ## Padded numbers -/

/-- The decimal digits of a number, with zeros in front up to a width. -/
def padded : ℕ → ℕ → List Char
  | 0, n => if n = 0 then [] else Nat.toDigits 10 n
  | width + 1, n => padded width (n / 10) ++ [Nat.digitChar (n % 10)]

section Padded

variable {width n m : ℕ}

theorem div_lt_pow (h : n < 10 ^ (width + 1)) : n / 10 < 10 ^ width := by
  rw [Nat.pow_succ] at h
  omega

@[simp] theorem length_padded (h : n < 10 ^ width) : (padded width n).length = width := by
  induction width generalizing n with
  | zero =>
    have hzero : n = 0 := by simpa using h
    simp [padded, hzero]
  | succ width ih => simp [padded, ih (div_lt_pow h)]

theorem isDigit_digitChar : ∀ digit < 10, (Nat.digitChar digit).isDigit = true := by decide

theorem digitChar_lt_digitChar : ∀ digit < 10, ∀ smaller < digit,
    Nat.digitChar smaller < Nat.digitChar digit := by decide

/-- A number that fits its width is written in digits. -/
theorem isDigit_of_mem_padded (h : n < 10 ^ width) {c : Char} (hc : c ∈ padded width n) :
    c.isDigit = true := by
  induction width generalizing n with
  | zero =>
    have hzero : n = 0 := by simpa using h
    simp [padded, hzero] at hc
  | succ width ih =>
    rw [padded, List.mem_append, List.mem_singleton] at hc
    rcases hc with hfront | rfl
    · exact ih (div_lt_pow h) hfront
    · exact isDigit_digitChar _ (Nat.mod_lt n (by decide))

/-! ## The order of text -/

variable {a b x y : List Char}

/-- Where the fronts have one length, the smaller front decides. -/
theorem append_lt_append (hlength : a.length = b.length) (h : a < b) : a ++ x < b ++ y := by
  induction a generalizing b with
  | nil =>
    cases b with
    | nil => simp at h
    | cons d rest => simp at hlength
  | cons c front ih =>
    cases b with
    | nil => simp at hlength
    | cons d rest =>
      rw [List.cons_lt_cons_iff] at h
      rw [List.cons_append, List.cons_append, List.cons_lt_cons_iff]
      rcases h with hhead | ⟨hhead, htail⟩
      · exact Or.inl hhead
      · exact Or.inr ⟨hhead, ih (by simpa using hlength) htail⟩

/-- Padded numbers of one width are in the order of the numbers. -/
theorem padded_lt_padded (h : n < m) (hm : m < 10 ^ width) : padded width n < padded width m := by
  induction width generalizing n m with
  | zero =>
    have hzero : m = 0 := by simpa using hm
    omega
  | succ width ih =>
    rw [padded, padded]
    have hfront := div_lt_pow hm
    by_cases hsame : n / 10 = m / 10
    · rw [hsame]
      apply List.append_left_lt
      rw [List.cons_lt_cons_iff]
      exact Or.inl (digitChar_lt_digitChar _ (Nat.mod_lt m (by decide)) _ (by omega))
    · have hless : n / 10 < m / 10 := by omega
      apply append_lt_append _ (ih hless hfront)
      rw [length_padded hfront, length_padded (Nat.lt_trans hless hfront)]

/-- A field in front decides, and where it is the same the rest does. -/
theorem padded_append_lt (hm : m < 10 ^ width) (h : n < m ∨ n = m ∧ x < y) :
    padded width n ++ x < padded width m ++ y := by
  rcases h with hless | ⟨rfl, hrest⟩
  · apply append_lt_append _ (padded_lt_padded hless hm)
    rw [length_padded hm, length_padded (Nat.lt_trans hless hm)]
  · exact List.append_left_lt hrest

end Padded

end Text
