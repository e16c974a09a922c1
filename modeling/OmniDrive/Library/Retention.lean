import Mathlib.Data.List.Sort

/-!
# Keeping the greatest

Of a list without repetitions, as many of the greatest elements are kept as a bound allows. What
is not kept is a front of the sorted list.
-/

namespace Retention

variable {α : Type} [LinearOrder α] {n : ℕ} {l : List α} {a b : α}

/-- The list in increasing order. -/
def sorted (l : List α) : List α := l.insertionSort (· ≤ ·)

/-- The elements that have to go, least first. -/
def stale (n : ℕ) (l : List α) : List α := (sorted l).take (l.length - n)

/-- The greatest elements, least first. -/
def newest (n : ℕ) (l : List α) : List α := (sorted l).drop (l.length - n)

@[simp] theorem mem_sorted : a ∈ sorted l ↔ a ∈ l := List.mem_insertionSort _

@[simp] theorem length_sorted (l : List α) : (sorted l).length = l.length :=
  List.length_insertionSort _ l

theorem sorted_perm (l : List α) : (sorted l).Perm l := List.perm_insertionSort _ l

theorem pairwise_sorted (l : List α) : (sorted l).Pairwise (· ≤ ·) := List.pairwise_insertionSort _ l

/-- Two lists with the same elements are sorted to the same list. -/
theorem sorted_eq_of_perm {m : List α} (hm : m.Pairwise (· ≤ ·)) (h : l.Perm m) : sorted l = m :=
  ((sorted_perm l).trans h).eq_of_pairwise' (pairwise_sorted l) hm

/-- Where the last element is less than a bound, all are. -/
theorem lt_of_getLast_lt {bound : α} (h : ¬ (sorted l).getLast?.any (fun a => bound ≤ a) = true)
    (ha : a ∈ l) : a < bound := by
  have hmem : a ∈ sorted l := mem_sorted.mpr ha
  have hpairwise := pairwise_sorted l
  rcases List.eq_nil_or_concat' (sorted l) with hnil | ⟨front, last, hconcat⟩
  · rw [hnil] at hmem
    cases hmem
  · rw [hconcat] at h hmem hpairwise
    have hlast : last < bound := by simpa using h
    rcases List.mem_append.mp hmem with hfront | hend
    · exact lt_of_le_of_lt ((List.pairwise_append.mp hpairwise).2.2 a hfront last (by simp)) hlast
    · rwa [List.mem_singleton.mp hend]

theorem stale_append_newest (n : ℕ) (l : List α) : stale n l ++ newest n l = sorted l :=
  List.take_append_drop _ _

theorem length_newest (n : ℕ) (l : List α) : (newest n l).length = min n l.length := by
  simp [newest]
  omega

/-- What goes is not greater than what is kept. -/
theorem le_of_mem_stale (ha : a ∈ stale n l) (hb : b ∈ newest n l) : a ≤ b := by
  have hsorted := pairwise_sorted l
  rw [← stale_append_newest n l, List.pairwise_append] at hsorted
  exact hsorted.2.2 a ha b hb

theorem mem_stale_or_mem_newest (ha : a ∈ l) : a ∈ stale n l ∨ a ∈ newest n l := by
  rw [← List.mem_append, stale_append_newest]
  exact mem_sorted.mpr ha

theorem mem_of_mem_newest (ha : a ∈ newest n l) : a ∈ l := mem_sorted.mp (List.mem_of_mem_drop ha)

theorem mem_of_mem_stale (ha : a ∈ stale n l) : a ∈ l := mem_sorted.mp (List.mem_of_mem_take ha)

section Nodup

variable (hnodup : l.Nodup)

include hnodup

theorem nodup_stale_append_newest (n : ℕ) : (stale n l ++ newest n l).Nodup := by
  rw [stale_append_newest]
  exact (sorted_perm l).nodup_iff.mpr hnodup

theorem ne_of_mem_stale (ha : a ∈ stale n l) (hb : b ∈ newest n l) : a ≠ b :=
  (List.nodup_append.mp (nodup_stale_append_newest hnodup n)).2.2 a ha b hb

/-- Without repetitions, nothing is both kept and not kept. -/
theorem filter_stale (n : ℕ) :
    (sorted l).filter (fun a => a ∉ stale n l) = newest n l := by
  rw [← stale_append_newest n l, List.filter_append]
  have hfront : (stale n l).filter (fun a => a ∉ stale n l) = [] := by simp
  have hback : (newest n l).filter (fun a => a ∉ stale n l) = newest n l := by
    rw [List.filter_eq_self]
    intro a ha
    simpa using fun hstale => ne_of_mem_stale hnodup hstale ha rfl
  rw [hfront, hback, List.nil_append]

/-- What is left when the rest is taken out of a list are its greatest elements. -/
theorem sorted_filter_stale (n : ℕ) :
    sorted (l.filter fun a => a ∉ stale n l) = newest n l := by
  have hpairwise : (newest n l).Pairwise (· ≤ ·) := (pairwise_sorted l).drop
  apply sorted_eq_of_perm hpairwise
  rw [← filter_stale hnodup n]
  exact ((sorted_perm l).symm.filter _)

/-- An element is kept where fewer than `n` elements are greater. -/
theorem mem_newest : a ∈ newest n l ↔ a ∈ l ∧ (l.filter fun b => a < b).length < n := by
  have hsplit := nodup_stale_append_newest hnodup n
  have hlength := length_newest n l
  constructor
  · intro ha
    refine ⟨mem_of_mem_newest ha, ?_⟩
    have hsub : ∀ b ∈ l.filter fun b => a < b, b ∈ (newest n l).erase a := by
      intro b hb
      obtain ⟨hmem, hless⟩ := List.mem_filter.mp hb
      have hless : a < b := by simpa using hless
      rcases mem_stale_or_mem_newest (n := n) hmem with hstale | hnewest
      · exact absurd hless (not_lt.mpr (le_of_mem_stale hstale ha))
      · exact (List.mem_erase_of_ne hless.ne').mpr hnewest
    have hle := (List.subperm_of_subset (hnodup.filter _) hsub).length_le
    have hpos := List.length_pos_of_mem ha
    rw [List.length_erase_of_mem ha] at hle
    omega
  · rintro ⟨ha, hfew⟩
    rcases mem_stale_or_mem_newest (n := n) ha with hstale | hnewest
    · have hsub : ∀ b ∈ newest n l, b ∈ l.filter fun b => a < b := by
        intro b hb
        have hless : a < b := lt_of_le_of_ne (le_of_mem_stale hstale hb)
          (ne_of_mem_stale hnodup hstale hb)
        simpa [hless] using mem_of_mem_newest hb
      have hle := (List.subperm_of_subset (List.nodup_append.mp hsplit).2.1 hsub).length_le
      have hpos := List.length_pos_of_mem hstale
      simp only [stale, List.length_take, length_sorted] at hpos
      omega
    · exact hnewest

/-- The greatest element is kept. -/
theorem mem_newest_of_greatest (hn : 0 < n) (ha : a ∈ l) (hgreatest : ∀ b ∈ l, b ≤ a) :
    a ∈ newest n l := by
  have hnone : (l.filter fun b => a < b) = [] := by
    simpa using hgreatest
  rw [mem_newest hnodup, hnone]
  exact ⟨ha, hn⟩

end Nodup

end Retention
