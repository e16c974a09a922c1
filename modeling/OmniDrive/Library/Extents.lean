import Mathlib.Algebra.BigOperators.Group.List.Basic
import Mathlib.Data.Nat.Basic
import OmniDrive.Library.ByteFields

/-!
# Pieces of a list by position

A list is read in pieces, and each piece is a range of positions. Ranges in increasing order that
do not overlap yield the whole of a window exactly if no position of the window is left out.
-/

namespace Extents

open ByteFields

/-- A half-open range of positions. -/
structure Extent where
  start : ℕ
  stop : ℕ
  deriving DecidableEq, Repr

/-- Ranges in increasing order that are not empty and lie in a window. -/
def Fits : ℕ → ℕ → List Extent → Prop
  | a, b, [] => a ≤ b
  | a, b, e :: rest => a ≤ e.start ∧ e.start < e.stop ∧ Fits e.stop b rest

/-- How many positions the ranges have. -/
def total (es : List Extent) : ℕ := (es.map fun e => e.stop - e.start).sum

/-- A position lies in one of the ranges. -/
def Covers (es : List Extent) (x : ℕ) : Prop := ∃ e ∈ es, e.start ≤ x ∧ x < e.stop

/-- Every range starts where the one before it stops. -/
def Joined : ℕ → List Extent → Prop
  | _, [] => True
  | a, e :: rest => e.start = a ∧ Joined e.stop rest

/-- What a list holds in the ranges. -/
def cut {α : Type} (l : List α) (es : List Extent) : List α :=
  es.flatMap fun e => slice e.start e.stop l

variable {α : Type} {a b x : ℕ} {e : Extent} {es : List Extent}

theorem covers_cons : Covers (e :: es) x ↔ (e.start ≤ x ∧ x < e.stop) ∨ Covers es x := by
  simp [Covers]

theorem Fits.le (h : Fits a b es) : a ≤ b := by
  induction es generalizing a with
  | nil => exact h
  | cons e rest ih => exact h.1.trans (h.2.1.le.trans (ih h.2.2))

theorem Fits.mono (h : Fits a b es) {b' : ℕ} (hb : b ≤ b') : Fits a b' es := by
  induction es generalizing a with
  | nil => exact le_trans h hb
  | cons e rest ih => exact ⟨h.1, h.2.1, ih h.2.2⟩

/-- Nothing fits into an empty window. -/
theorem Fits.eq_nil (h : Fits b b es) : es = [] := by
  cases es with
  | nil => rfl
  | cons e rest =>
    obtain ⟨hstart, hlt, hrest⟩ := h
    have hle := hrest.le
    omega

/-- The ranges lie in the window. -/
theorem Fits.bounds (h : Fits a b es) (hx : Covers es x) : a ≤ x ∧ x < b := by
  induction es generalizing a with
  | nil =>
    obtain ⟨e, he, -⟩ := hx
    cases he
  | cons e rest ih =>
    have hle := h.2.2.le
    rcases covers_cons.mp hx with hx | hx
    · exact ⟨h.1.trans hx.1, hx.2.trans_le hle⟩
    · obtain ⟨hlow, hhigh⟩ := ih h.2.2 hx
      exact ⟨h.1.trans (h.2.1.le.trans hlow), hhigh⟩

theorem total_cons (e : Extent) (es : List Extent) :
    total (e :: es) = (e.stop - e.start) + total es := by
  rw [total, total, List.map_cons, List.sum_cons]

/-- The ranges have no more positions than the window. -/
theorem Fits.total_le (h : Fits a b es) : a + total es ≤ b := by
  induction es generalizing a with
  | nil => exact h
  | cons e rest ih =>
    obtain ⟨hstart, hlt, hrest⟩ := h
    have hle := ih hrest
    rw [total_cons]
    omega

/-- They have fewer if a position of the window is left out. -/
theorem Fits.total_lt (h : Fits a b es) (hlow : a ≤ x) (hhigh : x < b) (hx : ¬ Covers es x) :
    a + total es < b := by
  induction es generalizing a with
  | nil => exact hlow.trans_lt hhigh
  | cons e rest ih =>
    obtain ⟨hstart, hlt, hrest⟩ := h
    have hsplit := mt covers_cons.mpr hx
    rw [not_or] at hsplit
    rw [total_cons]
    by_cases hbefore : x < e.start
    · have hle := hrest.total_le
      omega
    · have hbehind : e.stop ≤ x := by
        by_contra hin
        exact hsplit.1 ⟨by omega, by omega⟩
      have hrec := ih hrest hbehind hsplit.2
      omega

theorem length_cut {l : List α} (h : Fits a b es) (hb : b ≤ l.length) :
    (cut l es).length = total es := by
  induction es generalizing a with
  | nil => rfl
  | cons e rest ih =>
    obtain ⟨hstart, hlt, hrest⟩ := h
    have hle := hrest.le
    have hrec : (rest.flatMap fun e => slice e.start e.stop l).length = total rest := ih hrest
    rw [cut, List.flatMap_cons, List.length_append, length_slice, hrec, total_cons]
    omega

/-- A slice of a slice. -/
theorem slice_slice {l : List α} {i j k n : ℕ} (hi : k ≤ i) (hj : j ≤ n) :
    slice (i - k) (j - k) (slice k n l) = slice i j l := by
  rw [slice, slice, slice, List.take_drop, List.take_take, List.drop_drop]
  by_cases hkj : k ≤ j
  · congr 2 <;> omega
  · rw [List.drop_eq_nil_of_le (by rw [List.length_take]; omega),
      List.drop_eq_nil_of_le (by rw [List.length_take]; omega)]

/-- Two slices that touch are one. -/
theorem slice_append_slice {l : List α} {i j k : ℕ} (hij : i ≤ j) (hjk : j ≤ k) :
    slice i j l ++ slice j k l = slice i k l := by
  obtain ⟨m, rfl⟩ := Nat.exists_eq_add_of_le hij
  obtain ⟨n, rfl⟩ := Nat.exists_eq_add_of_le hjk
  rw [slice_eq_take_drop, slice_eq_take_drop, Nat.add_assoc, slice_eq_take_drop, List.take_add,
    List.drop_drop]

/-- Ranges that leave no position out yield the window. -/
theorem Fits.cut_eq (l : List α) (h : Fits a b es) (hall : ∀ x, a ≤ x → x < b → Covers es x) :
    cut l es = slice a b l := by
  induction es generalizing a with
  | nil =>
    have hempty : a = b := by
      by_contra hne
      obtain ⟨e, he, -⟩ := hall a le_rfl (lt_of_le_of_ne h hne)
      cases he
    rw [hempty, slice, List.drop_take_self]
    rfl
  | cons e rest ih =>
    obtain ⟨hstart, hlt, hrest⟩ := h
    have hfirst : e.start = a := by
      by_contra hne
      have hbefore : a < e.start := lt_of_le_of_ne hstart (Ne.symm hne)
      rcases covers_cons.mp (hall a le_rfl (hbefore.trans (hlt.trans_le hrest.le))) with hx | hx
      · omega
      · have hlow := (hrest.bounds hx).1
        omega
    have hrec : cut l rest = slice e.stop b l := by
      apply ih hrest
      intro x hlow hhigh
      rcases covers_cons.mp (hall x (hstart.trans (hlt.le.trans hlow)) hhigh) with hx | hx
      · omega
      · exact hx
    change slice e.start e.stop l ++ cut l rest = slice a b l
    rw [hrec, hfirst, slice_append_slice (hfirst ▸ hlt.le) hrest.le]

/-- They yield the window if and only if they leave no position of it out. -/
theorem Fits.cut_eq_iff {l : List α} (h : Fits a b es) (hb : b ≤ l.length) :
    cut l es = slice a b l ↔ ∀ x, a ≤ x → x < b → Covers es x := by
  constructor
  · intro hcut x hlow hhigh
    by_contra hx
    have hlt := h.total_lt hlow hhigh hx
    have hlength := length_cut h hb
    rw [hcut, length_slice] at hlength
    omega
  · exact h.cut_eq l

/-- Ranges are joined if and only if no position before one of them is left out. -/
theorem Fits.joined_iff (h : Fits a b es) :
    Joined a es ↔ ∀ e ∈ es, ∀ x, a ≤ x → x < e.start → Covers es x := by
  induction es generalizing a with
  | nil => exact ⟨fun _ _ he => (nomatch he), fun _ => trivial⟩
  | cons e rest ih =>
    obtain ⟨hstart, hlt, hrest⟩ := h
    rw [Joined, ih hrest]
    constructor
    · rintro ⟨rfl, hrest'⟩ e' he' x hlow hhigh
      rw [covers_cons]
      by_cases hin : x < e.stop
      · exact .inl ⟨hlow, hin⟩
      · rcases List.mem_cons.mp he' with rfl | he'
        · omega
        · exact .inr (hrest' e' he' x (by omega) hhigh)
    · intro hall
      have hfirst : e.start = a := by
        by_contra hne
        rcases covers_cons.mp (hall e List.mem_cons_self a le_rfl (by omega)) with hx | hx
        · omega
        · have hlow := (hrest.bounds hx).1
          omega
      refine ⟨hfirst, fun e' he' x hlow hhigh => ?_⟩
      rcases covers_cons.mp (hall e' (List.mem_cons_of_mem _ he') x (by omega) hhigh) with hx | hx
      · omega
      · exact hx

end Extents
