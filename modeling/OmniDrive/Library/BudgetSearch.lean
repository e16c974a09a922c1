import Mathlib.Data.List.Basic

/-!
# Search with a failure budget

A search goes through a list of trials until it finds something. Some failures are harmless,
others are counted and end the search when their number reaches a cap, and some end it at once.
-/

namespace BudgetSearch

variable {α : Type}

/-- What a trial comes to. -/
inductive Trial (α : Type) where
  | found (a : α)
  | harmless
  | costly
  | fatal
  deriving DecidableEq

/-- How a search ends; an exhausted one knows the number of its counted failures. -/
inductive Result (α : Type) where
  | found (a : α)
  | exhausted (failures : ℕ)
  | capped
  | fatal
  deriving DecidableEq

/-- Search with the given number of counted failures so far. -/
def search (cap : ℕ) : ℕ → List (Trial α) → Result α
  | n, [] => .exhausted n
  | n, trial :: trials =>
    match trial with
    | .found a => .found a
    | .harmless => search cap n trials
    | .costly => if cap ≤ n + 1 then .capped else search cap (n + 1) trials
    | .fatal => .fatal

theorem search_costly (cap n : ℕ) (l : List (Trial α)) : search cap n (.costly :: l) =
    if cap ≤ n + 1 then .capped else search cap (n + 1) l := rfl

/-- A search through two lists goes on with the count of the first one. -/
theorem search_append (cap n : ℕ) (l l' : List (Trial α)) :
    search cap n (l ++ l') = match search cap n l with
      | .exhausted m => search cap m l'
      | ended => ended := by
  induction l generalizing n with
  | nil => rfl
  | cons trial l ih =>
    rw [List.cons_append]
    cases trial with
    | found a => rfl
    | harmless => exact ih n
    | costly =>
      rw [search_costly, search_costly]
      by_cases hcap : cap ≤ n + 1
      · rw [if_pos hcap, if_pos hcap]
      · rw [if_neg hcap, if_neg hcap, ih]
    | fatal => rfl

/-- What a search finds is in the list. -/
theorem mem_of_search {cap n : ℕ} {l : List (Trial α)} {a : α} (h : search cap n l = .found a) :
    .found a ∈ l := by
  induction l generalizing n with
  | nil => cases h
  | cons trial l ih =>
    cases trial with
    | found b =>
      injection h with hb
      rw [hb]
      exact List.mem_cons_self
    | harmless => exact List.mem_cons_of_mem _ (ih h)
    | costly =>
      rw [search_costly] at h
      split at h
      · cases h
      · exact List.mem_cons_of_mem _ (ih h)
    | fatal => cases h

/-- Something in the list can be reached: nothing fatal and too few counted failures before. -/
def Reachable [DecidableEq α] (budget : ℕ) (l : List (Trial α)) : Prop :=
  ∃ front a back, l = front ++ .found a :: back ∧ .fatal ∉ front ∧ front.count .costly < budget

/-- A search finds something exactly where something can be reached. -/
theorem search_found_iff [DecidableEq α] (cap n : ℕ) (l : List (Trial α)) (hn : n < cap) :
    (∃ a, search cap n l = .found a) ↔ Reachable (cap - n) l := by
  constructor
  · intro ⟨a, h⟩
    induction l generalizing n with
    | nil => cases h
    | cons trial l ih =>
      cases trial with
      | found b => exact ⟨[], b, l, rfl, List.not_mem_nil, Nat.sub_pos_of_lt hn⟩
      | harmless =>
        obtain ⟨front, b, back, hl, hfatal, hcount⟩ := ih n hn h
        refine ⟨.harmless :: front, b, back, by rw [hl]; rfl, ?_, ?_⟩
        · simpa using hfatal
        · simpa using hcount
      | costly =>
        rw [search_costly] at h
        split at h
        · cases h
        · rename_i hcap
          obtain ⟨front, b, back, hl, hfatal, hcount⟩ := ih (n + 1) (by omega) h
          refine ⟨.costly :: front, b, back, by rw [hl]; rfl, ?_, ?_⟩
          · simpa using hfatal
          · rw [List.count_cons_self]
            omega
      | fatal => cases h
  · intro ⟨front, a, back, hl, hfatal, hcount⟩
    rw [hl]
    clear hl
    induction front generalizing n with
    | nil => exact ⟨a, rfl⟩
    | cons trial front ih =>
      have hrest : .fatal ∉ front := fun h => hfatal (List.mem_cons_of_mem _ h)
      cases trial with
      | found b => exact ⟨b, rfl⟩
      | harmless =>
        rw [List.count_cons_of_ne (by simp)] at hcount
        exact ih n hn hrest hcount
      | costly =>
        rw [List.count_cons_self] at hcount
        have hcap : ¬ cap ≤ n + 1 := by omega
        rw [List.cons_append, search_costly, if_neg hcap]
        exact ih (n + 1) (by omega) hrest (by omega)
      | fatal => exact absurd List.mem_cons_self hfatal

/-- Without anything fatal a search does not end so. -/
theorem search_ne_fatal {cap n : ℕ} {l : List (Trial α)} (h : .fatal ∉ l) :
    search cap n l ≠ .fatal := by
  induction l generalizing n with
  | nil =>
    intro hend
    cases hend
  | cons trial l ih =>
    have hrest : .fatal ∉ l := fun hmem => h (List.mem_cons_of_mem _ hmem)
    cases trial with
    | found a =>
      intro hend
      cases hend
    | harmless => exact ih hrest
    | costly =>
      rw [search_costly]
      split
      · intro hend
        cases hend
      · exact ih hrest
    | fatal => exact absurd List.mem_cons_self h

end BudgetSearch
