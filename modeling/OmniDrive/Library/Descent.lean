import Mathlib.Data.List.Nodup
import Mathlib.Logic.Function.Iterate

/-!
# Rows below their roots

A recursive query over rows that point at their parents: it starts with the rows that have none and
goes on with the rows below those of the last level, until a level is empty. Where every row has a
key of its own, there are no more levels than rows, and each row is met once.
-/

namespace Descent

section

variable {R K A : Type} (key : R → K) (parent : R → Option K) (start : R → A) (extend : A → R → A)
  (rows : List R)

/-- A row that is so many steps below a root, with what has been gathered on the way. -/
inductive Reaches : ℕ → R → A → Prop
  | root {r : R} (hmem : r ∈ rows) (hroot : parent r = none) : Reaches 0 r (start r)
  | child {n : ℕ} {p r : R} {a : A} (habove : Reaches n p a) (hmem : r ∈ rows)
      (hparent : parent r = some (key p)) : Reaches (n + 1) r (extend a r)

variable {key parent start extend rows}

theorem Reaches.mem {n : ℕ} {r : R} {a : A} (h : Reaches key parent start extend rows n r a) :
    r ∈ rows := by
  cases h with
  | root hmem => exact hmem
  | child _ hmem => exact hmem

section Keys

variable (hkey : (rows.map key).Nodup)

include hkey

/-- There is one way down to a row. -/
theorem Reaches.unique {n m : ℕ} {r r' : R} {a b : A}
    (h : Reaches key parent start extend rows n r a)
    (h' : Reaches key parent start extend rows m r' b) (hsame : key r = key r') :
    n = m ∧ a = b := by
  induction h generalizing m r' b with
  | root hmem hroot =>
    obtain rfl := List.inj_on_of_nodup_map hkey hmem h'.mem hsame
    cases h' with
    | root => exact ⟨rfl, rfl⟩
    | child _ _ hparent =>
      rw [hroot] at hparent
      cases hparent
  | child habove hmem hparent ih =>
    obtain rfl := List.inj_on_of_nodup_map hkey hmem h'.mem hsame
    cases h' with
    | root _ hroot =>
      rw [hroot] at hparent
      cases hparent
    | child habove' _ hparent' =>
      rw [hparent] at hparent'
      obtain ⟨rfl, rfl⟩ := ih habove' (Option.some.inj hparent')
      exact ⟨rfl, rfl⟩

/-- The rows on the way down to a row. -/
theorem Reaches.exists_way {n : ℕ} {r : R} {a : A}
    (h : Reaches key parent start extend rows n r a) :
    ∃ way : List R, way.length = n + 1 ∧ way.Nodup ∧
      ∀ x ∈ way, ∃ m ≤ n, ∃ b, Reaches key parent start extend rows m x b := by
  induction h with
  | @root r hmem hroot =>
    refine ⟨[r], rfl, List.nodup_singleton r, ?_⟩
    intro x hx
    obtain rfl := List.mem_singleton.mp hx
    exact ⟨0, Nat.le_refl 0, _, .root hmem hroot⟩
  | @child n p r a habove hmem hparent ih =>
    obtain ⟨way, hlength, hnodup, hway⟩ := ih
    have hrow : Reaches key parent start extend rows (n + 1) r (extend a r) :=
      .child habove hmem hparent
    refine ⟨r :: way, by rw [List.length_cons, hlength], List.nodup_cons.mpr ⟨?_, hnodup⟩, ?_⟩
    · -- The rows above are on lower levels.
      intro hr
      obtain ⟨m, hm, b, hlower⟩ := hway r hr
      have heq := (hrow.unique hkey hlower rfl).1
      omega
    · intro x hx
      rcases List.mem_cons.mp hx with rfl | hx
      · exact ⟨n + 1, Nat.le_refl _, _, hrow⟩
      · obtain ⟨m, hm, b, hlower⟩ := hway x hx
        exact ⟨m, Nat.le_succ_of_le hm, b, hlower⟩

/-- There are no more levels than rows. -/
theorem Reaches.lt_length {n : ℕ} {r : R} {a : A}
    (h : Reaches key parent start extend rows n r a) : n < rows.length := by
  obtain ⟨way, hlength, hnodup, hway⟩ := h.exists_way hkey
  have hsubset : way ⊆ rows := by
    intro x hx
    obtain ⟨m, -, b, hlower⟩ := hway x hx
    exact hlower.mem
  have hle := hnodup.length_le_of_subset hsubset
  omega

end Keys

variable (key parent start extend rows)

def roots : List (R × A) := (rows.filter fun r => (parent r).isNone).map fun r => (r, start r)

variable [DecidableEq K]

def children (level : List (R × A)) : List (R × A) :=
  level.flatMap fun p =>
    (rows.filter fun r => parent r = some (key p.1)).map fun r => (r, extend p.2 r)

/-- So many levels from one level on. -/
def levels : ℕ → List (R × A) → List (R × A)
  | 0, _ => []
  | n + 1, level => level ++ levels n (children key parent extend rows level)

/-- All levels that can have rows. -/
def descend : List (R × A) := levels key parent extend rows rows.length (roots parent start rows)

variable {key parent start extend rows}

theorem mem_levels {n : ℕ} {level : List (R × A)} {x : R × A} :
    x ∈ levels key parent extend rows n level ↔
      ∃ m < n, x ∈ (children key parent extend rows)^[m] level := by
  induction n generalizing level with
  | zero => simp [levels]
  | succ n ih =>
    rw [levels, List.mem_append, ih]
    constructor
    · rintro (hmem | ⟨m, hm, hmem⟩)
      · exact ⟨0, Nat.succ_pos n, hmem⟩
      · exact ⟨m + 1, Nat.succ_lt_succ hm, hmem⟩
    · rintro ⟨m, hm, hmem⟩
      cases m with
      | zero => exact .inl hmem
      | succ m => exact .inr ⟨m, Nat.lt_of_succ_lt_succ hm, hmem⟩

/-- The rows of a level are those so many steps below a root. -/
theorem mem_iterate_children {n : ℕ} {r : R} {a : A} :
    (r, a) ∈ (children key parent extend rows)^[n] (roots parent start rows) ↔
      Reaches key parent start extend rows n r a := by
  induction n generalizing r a with
  | zero =>
    simp only [Function.iterate_zero, id_eq, roots, List.mem_map, List.mem_filter, Prod.mk.injEq,
      Option.isNone_iff_eq_none]
    constructor
    · rintro ⟨r, ⟨hmem, hroot⟩, rfl, rfl⟩
      exact .root hmem hroot
    · intro h
      cases h with
      | root hmem hroot => exact ⟨r, ⟨hmem, hroot⟩, rfl, rfl⟩
  | succ n ih =>
    rw [Function.iterate_succ_apply', children]
    simp only [List.mem_flatMap, List.mem_map, List.mem_filter, Prod.mk.injEq, decide_eq_true_eq]
    constructor
    · rintro ⟨⟨p, b⟩, habove, r, ⟨hmem, hparent⟩, rfl, rfl⟩
      exact .child (ih.mp habove) hmem hparent
    · intro h
      cases h with
      | child habove hmem hparent => exact ⟨_, ih.mpr habove, r, ⟨hmem, hparent⟩, rfl, rfl⟩

/-- The query meets the rows below the roots. -/
theorem mem_descend (hkey : (rows.map key).Nodup) {r : R} {a : A} :
    (r, a) ∈ descend key parent start extend rows ↔
      ∃ n, Reaches key parent start extend rows n r a := by
  rw [descend, mem_levels]
  constructor
  · rintro ⟨n, -, hmem⟩
    exact ⟨n, mem_iterate_children.mp hmem⟩
  · rintro ⟨n, h⟩
    exact ⟨n, h.lt_length hkey, mem_iterate_children.mpr h⟩

end

end Descent
