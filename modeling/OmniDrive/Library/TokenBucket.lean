import Mathlib.Algebra.Order.Field.Basic
import Mathlib.Tactic.Linarith
import Mathlib.Tactic.Ring

/-!
# Token buckets

A bucket is refilled at a constant rate up to its capacity, and every grant takes its tokens out of
it. Whatever is granted within a window of time is at most what the window refills and one bucket.
-/

namespace TokenBucket

variable {F : Type} [Field F] [LinearOrder F]

/-- The tokens of a bucket, and the time at which they were counted. -/
structure Bucket (F : Type) where
  tokens : F
  filledAt : F

/-- Count what has come in since the bucket was last looked at. -/
def refill (rate capacity now : F) (b : Bucket F) : Bucket F :=
  if 0 < now - b.filledAt then
    { tokens := min (b.tokens + (now - b.filledAt) * rate) capacity, filledAt := now }
  else b

/-- The tokens granted at times between two bounds. -/
def grantedBetween (first last : F) (grants : List (F × F)) : F :=
  ((grants.filter fun g => first ≤ g.1 ∧ g.1 ≤ last).map Prod.snd).sum

theorem grantedBetween_cons (first last : F) (g : F × F) (grants : List (F × F)) :
    grantedBetween first last (g :: grants) =
      (if first ≤ g.1 ∧ g.1 ≤ last then g.2 else 0) + grantedBetween first last grants := by
  unfold grantedBetween
  by_cases hin : first ≤ g.1 ∧ g.1 ≤ last
  · rw [List.filter_cons_of_pos (by simpa using hin), if_pos hin, List.map_cons, List.sum_cons]
  · rw [List.filter_cons_of_neg (by simpa using hin), if_neg hin, zero_add]

/-- A grant outside of the window does not count. -/
theorem grantedBetween_eq_zero {first last : F} {grants : List (F × F)}
    (h : ∀ g ∈ grants, g.1 < first) : grantedBetween first last grants = 0 := by
  unfold grantedBetween
  rw [List.filter_eq_nil_iff.mpr]
  · rfl
  · intro g hg hin
    exact absurd (of_decide_eq_true hin).1 (not_le.mpr (h g hg))

/-- The account of a bucket: it never holds more than its capacity, its grants lie in the past, and
what a window has granted is bounded by what it has refilled. -/
structure Account (rate capacity : F) (b : Bucket F) (grants : List (F × F)) : Prop where
  tokens_le : b.tokens ≤ capacity
  past : ∀ g ∈ grants, g.1 ≤ b.filledAt
  bound : ∀ first length, 0 ≤ length →
    grantedBetween first (first + length) grants ≤ rate * length + capacity
  open_bound : ∀ first length, 0 ≤ length → b.filledAt ≤ first + length →
    grantedBetween first (first + length) grants + b.tokens ≤
      rate * max 0 (b.filledAt - first) + capacity

variable [IsStrictOrderedRing F] {rate capacity now : F} {b : Bucket F} {grants : List (F × F)}

/-- A bucket that has granted nothing. -/
theorem account_nil (hrate : 0 ≤ rate) (hcapacity : 0 ≤ capacity) (h : b.tokens ≤ capacity) :
    Account rate capacity b [] where
  tokens_le := h
  past := by simp
  bound := by
    intro first length hlength
    rw [grantedBetween_eq_zero (by simp)]
    positivity
  open_bound := by
    intro first length _ _
    have hrefilled : 0 ≤ rate * max 0 (b.filledAt - first) :=
      mul_nonneg hrate (le_max_left _ _)
    rw [grantedBetween_eq_zero (by simp)]
    linarith

/-- The bucket is as old as the clock after a refill. -/
theorem filledAt_refill (rate capacity : F) (h : b.filledAt ≤ now) : (refill rate capacity now b).filledAt = now := by
  unfold refill
  split
  · rfl
  · rename_i hlate
    linarith

/-- A refill counts everything that has come in, up to the capacity. -/
theorem tokens_refill (rate : F) (hle : b.tokens ≤ capacity) (h : b.filledAt ≤ now) :
    (refill rate capacity now b).tokens = min (b.tokens + (now - b.filledAt) * rate) capacity := by
  unfold refill
  split
  · rfl
  · rename_i hlate
    have hsame : now - b.filledAt = 0 := by linarith
    rw [hsame, zero_mul, add_zero, min_eq_left hle]

/-- Refills keep the account. -/
theorem Account.refill (hrate : 0 ≤ rate) (h : Account rate capacity b grants)
    (hnow : b.filledAt ≤ now) : Account rate capacity (refill rate capacity now b) grants where
  tokens_le := by
    rw [tokens_refill rate h.tokens_le hnow]
    exact min_le_right _ _
  past := by
    intro g hg
    rw [filledAt_refill rate capacity hnow]
    exact (h.past g hg).trans hnow
  bound := h.bound
  open_bound := by
    intro first length hlength hopen
    rw [filledAt_refill rate capacity hnow] at hopen ⊢
    rw [tokens_refill rate h.tokens_le hnow]
    have hold := h.open_bound first length hlength (hnow.trans hopen)
    rcases le_or_gt first b.filledAt with hin | hbefore
    · -- the window was open at the last refill, and has been open since
      have hgrown : rate * max 0 (b.filledAt - first) + (now - b.filledAt) * rate =
          rate * max 0 (now - first) := by
        rw [max_eq_right (by linarith), max_eq_right (by linarith)]
        ring
      have htokens := min_le_left (b.tokens + (now - b.filledAt) * rate) capacity
      linarith
    · -- nothing was granted in the window so far
      have hnone : grantedBetween first (first + length) grants = 0 :=
        grantedBetween_eq_zero fun g hg => (h.past g hg).trans_lt hbefore
      have hrefilled : 0 ≤ rate * max 0 (now - first) := mul_nonneg hrate (le_max_left _ _)
      have htokens := min_le_right (b.tokens + (now - b.filledAt) * rate) capacity
      rw [hnone]
      linarith

/-- So does a grant of tokens that are there. -/
theorem Account.grant (hrate : 0 ≤ rate) (h : Account rate capacity b grants) {n : F}
    (hn : 0 ≤ n) (hle : n ≤ b.tokens) (hnow : b.filledAt = now) :
    Account rate capacity { b with tokens := b.tokens - n } ((now, n) :: grants) where
  tokens_le := by
    have htokens := h.tokens_le
    show b.tokens - n ≤ capacity
    linarith
  past := by
    intro g hg
    rcases List.mem_cons.mp hg with rfl | hg
    · exact hnow.ge
    · exact h.past g hg
  bound := by
    intro first length hlength
    rw [grantedBetween_cons]
    split
    · rename_i hin
      have hopen := h.open_bound first length hlength (hnow.trans_le hin.2)
      have hshort : b.filledAt - first ≤ length := by linarith [hin.2]
      have hrefilled : rate * max 0 (b.filledAt - first) ≤ rate * length :=
        mul_le_mul_of_nonneg_left (max_le hlength hshort) hrate
      linarith
    · rw [zero_add]
      exact h.bound first length hlength
  open_bound := by
    intro first length hlength hopen
    have hold := h.open_bound first length hlength hopen
    rw [grantedBetween_cons]
    show (if first ≤ now ∧ now ≤ first + length then n else 0) +
      grantedBetween first (first + length) grants + (b.tokens - n) ≤
        rate * max 0 (b.filledAt - first) + capacity
    split <;> linarith

end TokenBucket
