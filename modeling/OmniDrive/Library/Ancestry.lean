import Mathlib.Data.List.Count
import Mathlib.Data.Nat.Notation
import Mathlib.Logic.Relation
import Mathlib.Order.Defs.LinearOrder
import OmniDrive.Library.Tables

/-!
# Ancestors along a parent map

A forest is given by the parent of each of its elements. Where parents come before their children,
nothing is its own ancestor, and following parents for long enough finds every ancestor.
-/

namespace Ancestry

variable {α : Type} (parent : α → Option α)

/-- One element is above another. -/
def Ancestor (a c : α) : Prop := Relation.TransGen (fun a c => parent c = some a) a c

/-- An element and what is above it, as far as so many steps lead. -/
def chain : ℕ → α → List α
  | 0, _ => []
  | n + 1, c => c :: match parent c with
    | some p => chain n p
    | none => []

variable {parent}

/-- The last step of a descent. -/
theorem ancestor_iff {a c : α} :
    Ancestor parent a c ↔ ∃ p, parent c = some p ∧ (a = p ∨ Ancestor parent a p) := by
  constructor
  · intro h
    cases h with
    | single edge => exact ⟨a, edge, .inl rfl⟩
    | @tail p _ path edge => exact ⟨p, edge, .inr path⟩
  · rintro ⟨p, edge, rfl | path⟩
    · exact .single edge
    · exact .tail path edge

/-- What the chain of an element finds is the element or above it. -/
theorem mem_chain {n : ℕ} {a c : α} (h : a ∈ chain parent n c) : a = c ∨ Ancestor parent a c := by
  induction n generalizing c with
  | zero => cases h
  | succ n ih =>
    rw [chain] at h
    rcases List.mem_cons.mp h with rfl | hrest
    · exact .inl rfl
    · right
      cases hparent : parent c with
      | none =>
        rw [hparent] at hrest
        cases hrest
      | some p =>
        rw [hparent] at hrest
        exact ancestor_iff.mpr ⟨p, hparent, ih hrest⟩

/-- With a rank that falls towards the parents, the chain finds everything above an element of a
lower rank than its length. -/
theorem mem_chain_of_rank (rank : α → ℕ) (hrank : ∀ c p, parent c = some p → rank p < rank c)
    {n : ℕ} {a c : α} (hn : rank c < n) (h : a = c ∨ Ancestor parent a c) :
    a ∈ chain parent n c := by
  induction n generalizing c with
  | zero => omega
  | succ n ih =>
    rw [chain]
    rcases h with rfl | h
    · exact List.mem_cons_self
    · obtain ⟨p, hparent, hp⟩ := ancestor_iff.mp h
      rw [hparent]
      have hlower := hrank c p hparent
      exact List.mem_cons_of_mem _ (ih (by omega) hp)

/-- Where the parents are rows of a table and come first, as many steps as there are rows find
everything above a row. -/
theorem mem_chain_of_rows [LinearOrder α] {β : Type} {key : β → α} {rows : List β}
    (hparent : ∀ c p, parent c = some p → p < c ∧ ∃ q ∈ rows, key q = p) {a : α} {r : β}
    (hr : r ∈ rows) (h : a = key r ∨ Ancestor parent a (key r)) :
    a ∈ chain parent rows.length (key r) := by
  apply mem_chain_of_rank (fun c => rows.countP (key · < c)) _ _ h
  · intro c p hp
    obtain ⟨hlt, q, hq, rfl⟩ := hparent c p hp
    refine Tables.countP_lt_countP (fun x _ hx => ?_) hq (by simp) (decide_eq_true hlt)
    exact decide_eq_true (lt_trans (of_decide_eq_true hx) hlt)
  · rw [List.countP_lt_length_iff]
    exact ⟨r, hr, by simp⟩

section Order

variable [Preorder α]

/-- Ancestors come first. -/
theorem ancestor_lt (hlt : ∀ c p, parent c = some p → p < c) {a c : α}
    (h : Ancestor parent a c) : a < c := by
  induction h with
  | single edge => exact hlt _ _ edge
  | tail _ edge ih => exact lt_trans ih (hlt _ _ edge)

/-- There is no cycle. -/
theorem not_ancestor_self (hlt : ∀ c p, parent c = some p → p < c) (a : α) :
    ¬ Ancestor parent a a := fun h => lt_irrefl a (ancestor_lt hlt h)

end Order

/-- What is above an element does not depend on the parents of others. -/
theorem ancestor_congr {parent' : α → Option α} {S : α → Prop}
    (hclosed : ∀ c p, S c → parent c = some p → S p) (hsame : ∀ c, S c → parent' c = parent c)
    {a c : α} (hc : S c) (h : Ancestor parent a c) : Ancestor parent' a c := by
  induction h with
  | single edge => exact .single ((hsame _ hc).trans edge)
  | @tail p c _ edge ih => exact .tail (ih (hclosed c p hc edge)) ((hsame c hc).trans edge)

end Ancestry
