import Mathlib.Data.List.Basic
import Mathlib.Data.String.Basic

/-!
# Integers in decimal

The text of an integer has digits and a sign only, and no two integers have the same text.
-/

namespace Decimals

/-- The digits of a number determine it. -/
theorem toDigits_injective : Function.Injective (Nat.toDigits 10) := by
  intro m n h
  rw [← Nat.ofDigitChars_ten_toDigits (n := m), h, Nat.ofDigitChars_ten_toDigits]

theorem toList_toString_natCast (n : ℕ) : (toString (n : ℤ)).toList = Nat.toDigits 10 n := by
  rw [show toString (n : ℤ) = toString n from rfl, Nat.toString_eq_ofList_toDigits,
    String.toList_ofList]

theorem toList_toString_negSucc (n : ℕ) :
    (toString (Int.negSucc n)).toList = '-' :: Nat.toDigits 10 (n + 1) := by
  rw [show toString (Int.negSucc n) = "-" ++ toString (n + 1) from rfl]
  simp

theorem isDigit_of_mem_toDigits {c : Char} {n : ℕ} (h : c ∈ Nat.toDigits 10 n) :
    c.isDigit = true :=
  Nat.isDigit_of_mem_toDigits (by decide) (by decide) h

/-- The text of an integer has digits and a sign only. -/
theorem isDigit_of_mem_toString {c : Char} {z : ℤ} (h : c ∈ (toString z).toList) :
    c.isDigit = true ∨ c = '-' := by
  cases z with
  | ofNat n =>
    left
    apply isDigit_of_mem_toDigits (n := n)
    rw [← toList_toString_natCast]
    exact h
  | negSucc n =>
    rw [toList_toString_negSucc, List.mem_cons] at h
    exact h.symm.imp_left isDigit_of_mem_toDigits

/-- No digit and no sign. -/
theorem notMem_toString {c : Char} (hdigit : c.isDigit = false) (hsign : c ≠ '-') (z : ℤ) :
    c ∉ (toString z).toList := by
  intro h
  rcases isDigit_of_mem_toString h with hc | hc
  · simp [hdigit] at hc
  · exact hsign hc

/-- The text of an integer determines it. -/
theorem toString_injective : Function.Injective fun z : ℤ => toString z := by
  have hsign : ∀ m n : ℕ, toString (m : ℤ) ≠ toString (Int.negSucc n) := by
    intro m n h
    have hmem : '-' ∈ Nat.toDigits 10 m := by
      rw [← toList_toString_natCast, h, toList_toString_negSucc]
      exact List.mem_cons_self
    exact absurd (isDigit_of_mem_toDigits hmem) (by decide)
  intro a b h
  have hlist : (toString a).toList = (toString b).toList := congrArg String.toList h
  cases a with
  | ofNat m =>
    cases b with
    | ofNat n =>
      have hdigits : Nat.toDigits 10 m = Nat.toDigits 10 n := by
        rw [← toList_toString_natCast, ← toList_toString_natCast]
        exact hlist
      rw [toDigits_injective hdigits]
    | negSucc n => exact absurd h (hsign m n)
  | negSucc m =>
    cases b with
    | ofNat n => exact absurd h.symm (hsign n m)
    | negSucc n =>
      rw [toList_toString_negSucc, toList_toString_negSucc] at hlist
      have hdigits := toDigits_injective (List.cons.inj hlist).2
      rw [Nat.succ.inj hdigits]

end Decimals
