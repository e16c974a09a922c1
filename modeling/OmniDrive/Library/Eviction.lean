import Mathlib.Algebra.BigOperators.Group.List.Basic
import Mathlib.Algebra.Order.Group.Int
import Mathlib.Algebra.Ring.Int.Defs
import Mathlib.Algebra.Ring.Nat
import Mathlib.Data.List.Infix

/-!
# Eviction in order

Rows are evicted in a given order until the sizes of the others fit a bound; kept rows are passed
over. The victims are as few as the order allows, and rows may be looked at page by page.
-/

namespace Eviction

variable {R : Type} (size : R → ℤ) (kept : R → Bool) (bound : ℤ)

/-- The rows that are evicted, given the size of all. -/
def victims : ℤ → List R → List R
  | _, [] => []
  | total, r :: rest =>
    if total ≤ bound then []
    else if kept r then victims total rest
    else r :: victims (total - size r) rest

/-- The size of a list of rows. -/
def sizeOf (rows : List R) : ℤ := (rows.map size).sum

@[simp] theorem sizeOf_nil : sizeOf size [] = 0 := rfl

@[simp] theorem sizeOf_cons (r : R) (rows : List R) :
    sizeOf size (r :: rows) = size r + sizeOf size rows := rfl

theorem sizeOf_append (rows more : List R) :
    sizeOf size (rows ++ more) = sizeOf size rows + sizeOf size more := by
  rw [sizeOf, List.map_append, List.sum_append]
  rfl

variable {size kept bound} {total : ℤ} {rows more : List R}

/-- Nothing is evicted where the rows fit. -/
theorem victims_of_le (h : total ≤ bound) (rows : List R) :
    victims size kept bound total rows = [] := by
  cases rows with
  | nil => rfl
  | cons r rest => rw [victims, if_pos h]

theorem victims_cons_kept {r : R} (hr : kept r = true) :
    victims size kept bound total (r :: rows) = victims size kept bound total rows := by
  by_cases hfits : total ≤ bound
  · rw [victims_of_le hfits, victims_of_le hfits]
  · rw [victims, if_neg hfits, if_pos hr]

theorem victims_cons {r : R} (hr : kept r = false) (h : bound < total) :
    victims size kept bound total (r :: rows) =
      r :: victims size kept bound (total - size r) rows := by
  rw [victims, if_neg (not_le.mpr h), if_neg (by simp [hr])]

/-- Rows that are all kept have no victims. -/
theorem victims_of_kept (h : ∀ r ∈ rows, kept r = true) :
    victims size kept bound total rows = [] := by
  induction rows with
  | nil => rfl
  | cons r rest ih =>
    rw [victims_cons_kept (h r List.mem_cons_self)]
    exact ih fun r' hr' => h r' (List.mem_cons_of_mem _ hr')

/-- The victims are the first of the rows that are not kept. -/
theorem first_of_victims (size : R → ℤ) (kept : R → Bool) (bound total : ℤ) (rows : List R) :
    victims size kept bound total rows <+: rows.filter fun r => !kept r := by
  induction rows generalizing total with
  | nil => exact List.prefix_rfl
  | cons r rest ih =>
    by_cases hfits : total ≤ bound
    · rw [victims_of_le hfits]
      exact List.nil_prefix
    · cases hr : kept r with
      | true =>
        rw [victims_cons_kept hr, List.filter_cons_of_neg (by simp [hr])]
        exact ih total
      | false =>
        rw [victims_cons hr (not_le.mp hfits), List.filter_cons_of_pos (by simp [hr])]
        exact (List.prefix_cons_inj r).mpr (ih _)

/-- Before every victim the rows did not fit. -/
theorem lt_of_prefix_victims {first : List R} {r : R}
    (h : first ++ [r] <+: victims size kept bound total rows) :
    bound < total - sizeOf size first := by
  induction rows generalizing total first with
  | nil =>
    have hnil := List.prefix_nil.mp h
    simp at hnil
  | cons r' rest ih =>
    by_cases hfits : total ≤ bound
    · rw [victims_of_le hfits] at h
      have hnil := List.prefix_nil.mp h
      simp at hnil
    · cases hr : kept r' with
      | true =>
        rw [victims_cons_kept hr] at h
        exact ih h
      | false =>
        rw [victims_cons hr (not_le.mp hfits)] at h
        cases first with
        | nil => simpa using not_le.mp hfits
        | cons r₀ first =>
          rw [List.cons_append, List.cons_prefix_cons] at h
          obtain ⟨rfl, hrest⟩ := h
          have hlt := ih hrest
          rw [sizeOf_cons]
          omega

/-- After all victims the rows fit, or only kept ones are left. -/
theorem victims_enough (size : R → ℤ) (kept : R → Bool) (bound total : ℤ) (rows : List R) :
    total - sizeOf size (victims size kept bound total rows) ≤ bound ∨
      victims size kept bound total rows = rows.filter fun r => !kept r := by
  induction rows generalizing total with
  | nil => exact .inr rfl
  | cons r rest ih =>
    by_cases hfits : total ≤ bound
    · rw [victims_of_le hfits]
      exact .inl (by simpa using hfits)
    · cases hr : kept r with
      | true =>
        rw [victims_cons_kept hr, List.filter_cons_of_neg (by simp [hr])]
        exact ih total
      | false =>
        rw [victims_cons hr (not_le.mp hfits), List.filter_cons_of_pos (by simp [hr]), sizeOf_cons]
        refine (ih (total - size r)).imp (fun hle => ?_) fun hall => ?_
        · omega
        · rw [hall]

/-- The rows may be looked at in two portions. -/
theorem victims_append (size : R → ℤ) (kept : R → Bool) (bound total : ℤ) (rows more : List R) :
    victims size kept bound total (rows ++ more) =
      victims size kept bound total rows ++
        victims size kept bound (total - sizeOf size (victims size kept bound total rows)) more := by
  induction rows generalizing total with
  | nil => simp [victims]
  | cons r rest ih =>
    rw [List.cons_append]
    by_cases hfits : total ≤ bound
    · rw [victims_of_le hfits, victims_of_le hfits, sizeOf_nil, sub_zero, victims_of_le hfits]
      rfl
    · cases hr : kept r with
      | true =>
        rw [victims_cons_kept hr, victims_cons_kept hr]
        exact ih total
      | false =>
        rw [victims_cons hr (not_le.mp hfits), victims_cons hr (not_le.mp hfits), ih,
          List.cons_append, sizeOf_cons, sub_sub]

end Eviction
