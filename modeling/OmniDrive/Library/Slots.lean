import Mathlib.Data.List.Count
import Mathlib.Data.List.Forall2
import Mathlib.Data.List.GetD
import Mathlib.Data.List.Nodup

/-!
# Numbered slots

A list of slots that are empty or hold a value, filled from a list of numbered values. Where the
numbers are distinct and their slots are empty, every value takes one more slot and stays in it.
-/

namespace Slots

variable {α : Type}

/-- Put each value into the slot with its number. -/
def fill (slots : List (Option α)) (pairs : List (ℕ × α)) : List (Option α) :=
  pairs.foldl (fun slots p => slots.set p.1 (some p.2)) slots

@[simp] theorem fill_nil (slots : List (Option α)) : fill slots [] = slots := rfl

@[simp] theorem fill_cons (slots : List (Option α)) (p : ℕ × α) (pairs : List (ℕ × α)) :
    fill slots (p :: pairs) = fill (slots.set p.1 (some p.2)) pairs := rfl

@[simp] theorem length_fill (slots : List (Option α)) (pairs : List (ℕ × α)) :
    (fill slots pairs).length = slots.length := by
  induction pairs generalizing slots with
  | nil => rfl
  | cons p rest ih => rw [fill_cons, ih, List.length_set]

/-- Slots without a new value stay as they are. -/
theorem getElem?_fill_of_notMem {slots : List (Option α)} {pairs : List (ℕ × α)} {i : ℕ}
    (h : i ∉ pairs.map Prod.fst) : (fill slots pairs)[i]? = slots[i]? := by
  induction pairs generalizing slots with
  | nil => rfl
  | cons p rest ih =>
    rw [List.map_cons, List.mem_cons, not_or] at h
    rw [fill_cons, ih h.2, List.getElem?_set_ne (fun heq => h.1 heq.symm)]

/-- A value stands in the slot with its number. -/
theorem getElem?_fill_of_mem {slots : List (Option α)} {pairs : List (ℕ × α)}
    (hnodup : (pairs.map Prod.fst).Nodup) {p : ℕ × α} (hp : p ∈ pairs)
    (hlt : p.1 < slots.length) : (fill slots pairs)[p.1]? = some (some p.2) := by
  induction pairs generalizing slots with
  | nil => cases hp
  | cons q rest ih =>
    rw [List.map_cons, List.nodup_cons] at hnodup
    rw [fill_cons]
    rcases List.mem_cons.mp hp with rfl | hp
    · rw [getElem?_fill_of_notMem hnodup.1, List.getElem?_set_self hlt]
    · exact ih hnodup.2 hp (by rwa [List.length_set])

/-- A full slot was full before or holds one of the values. -/
theorem mem_fill {slots : List (Option α)} {pairs : List (ℕ × α)} {b : α}
    (h : some b ∈ fill slots pairs) : some b ∈ slots ∨ ∃ p ∈ pairs, p.2 = b := by
  induction pairs generalizing slots with
  | nil => exact Or.inl h
  | cons q rest ih =>
    rcases ih h with hslot | ⟨p, hp, hb⟩
    · rcases List.mem_or_eq_of_mem_set hslot with hold | hnew
      · exact Or.inl hold
      · exact Or.inr ⟨q, List.mem_cons_self, (Option.some.inj hnew).symm⟩
    · exact Or.inr ⟨p, List.mem_cons_of_mem _ hp, hb⟩

/-- Filling an empty slot adds one to the number of full ones. -/
theorem countP_set_of_empty {slots : List (Option α)} {i : ℕ} (h : slots[i]? = some none) (a : α) :
    (slots.set i (some a)).countP Option.isSome = slots.countP Option.isSome + 1 := by
  obtain ⟨hlt, hget⟩ := List.getElem?_eq_some_iff.mp h
  rw [List.countP_set hlt, hget]
  simp

/-- Filling empty slots with distinct numbers adds as many full ones. -/
theorem countP_fill {slots : List (Option α)} {pairs : List (ℕ × α)}
    (hnodup : (pairs.map Prod.fst).Nodup) (hempty : ∀ p ∈ pairs, slots[p.1]? = some none) :
    (fill slots pairs).countP Option.isSome = slots.countP Option.isSome + pairs.length := by
  induction pairs generalizing slots with
  | nil => rfl
  | cons q rest ih =>
    rw [List.map_cons, List.nodup_cons] at hnodup
    have hrest : ∀ p ∈ rest, (slots.set q.1 (some q.2))[p.1]? = some none := by
      intro p hp
      have hne : q.1 ≠ p.1 := fun heq => hnodup.1 (by rw [heq]; exact List.mem_map_of_mem hp)
      rw [List.getElem?_set_ne hne]
      exact hempty p (List.mem_cons_of_mem _ hp)
    rw [fill_cons, ih hnodup.2 hrest, countP_set_of_empty (hempty q List.mem_cons_self),
      List.length_cons]
    omega

/-- Distinct numbers of full slots are no more than the full slots. -/
theorem length_le_countP {slots : List (Option α)} {numbers : List ℕ} (hnodup : numbers.Nodup)
    (hfull : ∀ i ∈ numbers, (slots.getD i none).isSome = true) :
    numbers.length ≤ slots.countP Option.isSome := by
  have hslots : (List.range slots.length).map (fun i => slots.getD i none) = slots := by
    apply List.ext_getElem
    · rw [List.length_map, List.length_range]
    · intro i _ hi
      rw [List.getElem_map, List.getElem_range, List.getD_eq_getElem _ _ hi]
  have hsub : numbers ⊆ (List.range slots.length).filter fun i => (slots.getD i none).isSome := by
    intro i hi
    rw [List.mem_filter, List.mem_range]
    refine ⟨Nat.lt_of_not_le fun hle => ?_, hfull i hi⟩
    have hempty := hfull i hi
    rw [List.getD_eq_default _ _ hle] at hempty
    cases hempty
  calc numbers.length
      ≤ ((List.range slots.length).filter fun i => (slots.getD i none).isSome).length :=
        (List.subperm_of_subset hnodup hsub).length_le
    _ = ((List.range slots.length).map fun i => slots.getD i none).countP Option.isSome := by
        rw [List.countP_map, ← List.countP_eq_length_filter]
        rfl
    _ = slots.countP Option.isSome := by rw [hslots]

/-- Slots agree with a list when they hold nothing but its values at their places. -/
theorem forall₂_agree_iff {slots : List (Option α)} {files : List α} :
    List.Forall₂ (fun slot file => slot = none ∨ slot = some file) slots files ↔
      slots.length = files.length ∧
        ∀ (i : ℕ) (b : α), slots[i]? = some (some b) → files[i]? = some b := by
  induction slots generalizing files with
  | nil =>
    cases files with
    | nil => simp
    | cons file rest => simp
  | cons slot slots ih =>
    cases files with
    | nil => simp
    | cons file rest =>
      rw [List.forall₂_cons, ih]
      constructor
      · intro ⟨hslot, hlength, hrest⟩
        refine ⟨congrArg (· + 1) hlength, fun i b hb => ?_⟩
        cases i with
        | zero =>
          have hhead : slot = some b := Option.some.inj hb
          rcases hslot with hnone | hsome
          · rw [hnone] at hhead
            cases hhead
          · rw [hsome] at hhead
            exact hhead
        | succ i => exact hrest i b hb
      · intro ⟨hlength, hall⟩
        refine ⟨?_, Nat.succ.inj hlength, fun i b hb => hall (i + 1) b hb⟩
        cases slot with
        | none => exact Or.inl rfl
        | some b =>
          right
          exact (hall 0 b rfl).symm

/-- Empty slots filled with numbered values agree with a list exactly when every value does. -/
theorem forall₂_fill_iff {files : List α} {pairs : List (ℕ × α)}
    (hnodup : (pairs.map Prod.fst).Nodup) (hlt : ∀ p ∈ pairs, p.1 < files.length) :
    List.Forall₂ (fun slot file => slot = none ∨ slot = some file)
        (fill (List.replicate files.length none) pairs) files ↔
      ∀ p ∈ pairs, files[p.1]? = some p.2 := by
  have hslot : ∀ p ∈ pairs, (fill (List.replicate files.length none) pairs)[p.1]? =
      some (some p.2) := by
    intro p hp
    apply getElem?_fill_of_mem hnodup hp
    rw [List.length_replicate]
    exact hlt p hp
  rw [forall₂_agree_iff]
  constructor
  · intro ⟨_, hall⟩ p hp
    exact hall p.1 p.2 (hslot p hp)
  · intro hall
    refine ⟨by rw [length_fill, List.length_replicate], fun i b hb => ?_⟩
    by_cases hmem : i ∈ pairs.map Prod.fst
    · obtain ⟨p, hp, rfl⟩ := List.mem_map.mp hmem
      rw [hslot p hp] at hb
      rw [hall p hp]
      exact Option.some.inj hb
    · rw [getElem?_fill_of_notMem hmem, List.getElem?_replicate] at hb
      split at hb
      · cases hb
      · cases hb

end Slots
