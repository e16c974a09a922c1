import Mathlib.Algebra.Ring.Int.Defs
import Mathlib.Algebra.Ring.Nat
import Mathlib.Tactic.IntervalCases

/-!
# The proleptic Gregorian calendar

Dates are counted from the first day of year 0. The count is strictly increasing in the order of
year, month and day, and every number is the count of one date. With years that begin in March the
leap day comes last, and a day number falls apart into eras of 400 years, years and months by
divisions alone.
-/

namespace Gregorian

def IsLeap (year : ℕ) : Prop := year % 4 = 0 ∧ (year % 100 ≠ 0 ∨ year % 400 = 0)

instance : DecidablePred IsLeap := fun _ => inferInstanceAs (Decidable (_ ∧ _))

def yearLength (year : ℕ) : ℕ := if IsLeap year then 366 else 365

/-- The days of a month; January is month 1. -/
def monthLength (year month : ℕ) : ℕ :=
  if month = 2 then if IsLeap year then 29 else 28
  else if month = 4 ∨ month = 6 ∨ month = 9 ∨ month = 11 then 30
  else 31

def daysBeforeYear : ℕ → ℕ
  | 0 => 0
  | year + 1 => daysBeforeYear year + yearLength year

/-- The days of a year before a month. -/
def daysBeforeMonth (year : ℕ) : ℕ → ℕ
  | 0 => 0
  | 1 => 0
  | month + 2 => daysBeforeMonth year (month + 1) + monthLength year (month + 1)

/-- A day of the calendar. -/
structure Date where
  year : ℕ
  month : ℕ
  day : ℕ
  month_mem : 1 ≤ month ∧ month ≤ 12
  day_mem : 1 ≤ day ∧ day ≤ monthLength year month

namespace Date

/-- The days before a date. -/
def dayNumber (a : Date) : ℕ :=
  daysBeforeYear a.year + daysBeforeMonth a.year a.month + (a.day - 1)

/-- The order of year, month and day. -/
def Before (a b : Date) : Prop :=
  a.year < b.year ∨ a.year = b.year ∧ (a.month < b.month ∨ a.month = b.month ∧ a.day < b.day)

end Date

/-! ## Counting -/

theorem daysBeforeYear_add_le {year later : ℕ} (h : year < later) :
    daysBeforeYear year + yearLength year ≤ daysBeforeYear later := by
  induction later with
  | zero => omega
  | succ later ih =>
    rw [daysBeforeYear]
    rcases Nat.lt_succ_iff_lt_or_eq.mp h with hlt | rfl
    · have hle := ih hlt
      omega
    · omega

theorem daysBeforeMonth_add_le (year : ℕ) {month later : ℕ} (hmonth : 1 ≤ month) (h : month < later) :
    daysBeforeMonth year month + monthLength year month ≤ daysBeforeMonth year later := by
  induction later with
  | zero => omega
  | succ later ih =>
    have hsucc : daysBeforeMonth year (later + 1) =
        daysBeforeMonth year later + monthLength year later := by
      cases later with
      | zero => omega
      | succ later => rfl
    rw [hsucc]
    rcases Nat.lt_succ_iff_lt_or_eq.mp h with hlt | rfl
    · have hle := ih hlt
      omega
    · omega

/-- The months make up the year. -/
theorem daysBeforeMonth_end (year : ℕ) : daysBeforeMonth year 13 = yearLength year := by
  by_cases hleap : IsLeap year <;> simp [daysBeforeMonth, monthLength, yearLength, hleap]

theorem daysBeforeYear_eq (year : ℕ) : daysBeforeYear year + (year + 99) / 100 =
    365 * year + (year + 3) / 4 + (year + 399) / 400 := by
  induction year with
  | zero => rfl
  | succ year ih =>
    rw [daysBeforeYear, yearLength]
    by_cases hleap : IsLeap year
    · rw [if_pos hleap]
      rw [IsLeap] at hleap
      omega
    · rw [if_neg hleap]
      rw [IsLeap] at hleap
      omega

/-- The days up to the end of a year. -/
theorem daysBeforeYear_succ_eq (year : ℕ) :
    daysBeforeYear year + yearLength year + year / 100 = 365 * year + 366 + year / 4 + year / 400 := by
  have hcount := daysBeforeYear_eq (year + 1)
  rw [daysBeforeYear] at hcount
  omega

namespace Date

/-- A date lies within its month and its month within its year. -/
theorem dayNumber_lt (a : Date) :
    a.dayNumber < daysBeforeYear a.year + daysBeforeMonth a.year a.month +
      monthLength a.year a.month := by
  have hday := a.day_mem
  rw [dayNumber]
  omega

/-- Later dates have greater numbers. -/
theorem Before.dayNumber_lt {a b : Date} (h : a.Before b) : a.dayNumber < b.dayNumber := by
  have ha := a.dayNumber_lt
  have hmonth := a.month_mem
  have hend := daysBeforeMonth_add_le a.year hmonth.1 (Nat.lt_succ_of_le hmonth.2)
  rw [daysBeforeMonth_end] at hend
  have hb : daysBeforeYear b.year + daysBeforeMonth b.year b.month ≤ b.dayNumber :=
    Nat.le_add_right _ _
  rcases h with hyear | ⟨hyear, hlater | ⟨hsame, hday⟩⟩
  · have hle := daysBeforeYear_add_le hyear
    omega
  · have hle := daysBeforeMonth_add_le a.year hmonth.1 hlater
    rw [← hyear] at hb
    omega
  · have hdayA := a.day_mem
    rw [dayNumber, dayNumber, hyear, hsame]
    omega

theorem before_of_dayNumber_lt {a b : Date} (h : a.dayNumber < b.dayNumber) : a.Before b := by
  by_contra hnot
  have hcases : b.Before a ∨ a.year = b.year ∧ a.month = b.month ∧ a.day = b.day := by
    simp only [Before] at hnot ⊢
    omega
  rcases hcases with hbefore | ⟨hyear, hmonth, hday⟩
  · have hlt := hbefore.dayNumber_lt
    omega
  · have heq : a.dayNumber = b.dayNumber := by rw [dayNumber, dayNumber, hyear, hmonth, hday]
    omega

/-- The day after a date. -/
theorem exists_next (a : Date) : ∃ b : Date, b.dayNumber = a.dayNumber + 1 := by
  have hmonth := a.month_mem
  have hday := a.day_mem
  have hfirst : ∀ year month, 1 ≤ month → 1 ≤ monthLength year month := by
    intro year month _
    unfold monthLength
    split_ifs <;> omega
  by_cases hwithin : a.day < monthLength a.year a.month
  · refine ⟨⟨a.year, a.month, a.day + 1, hmonth, by omega⟩, ?_⟩
    simp only [dayNumber]
    omega
  have hlast : a.day = monthLength a.year a.month := by omega
  by_cases hmonths : a.month < 12
  · refine ⟨⟨a.year, a.month + 1, 1, by omega, Nat.le_refl 1, hfirst _ _ (by omega)⟩, ?_⟩
    obtain ⟨month, hpred⟩ := Nat.exists_eq_add_of_le' hmonth.1
    simp only [dayNumber, hpred, daysBeforeMonth] at hlast ⊢
    omega
  · have htwelve : a.month = 12 := by omega
    refine ⟨⟨a.year + 1, 1, 1, by omega, Nat.le_refl 1, hfirst _ _ (by omega)⟩, ?_⟩
    have hend : daysBeforeMonth a.year 12 + monthLength a.year 12 = yearLength a.year :=
      daysBeforeMonth_end a.year
    have hfront : daysBeforeMonth (a.year + 1) 1 = 0 := rfl
    simp only [dayNumber, daysBeforeYear, hfront, htwelve] at hlast ⊢
    omega

/-- Every number is the number of a date. -/
theorem exists_dayNumber_eq (n : ℕ) : ∃ a : Date, a.dayNumber = n := by
  induction n with
  | zero => exact ⟨⟨0, 1, 1, by decide, by decide⟩, rfl⟩
  | succ n ih =>
    obtain ⟨a, rfl⟩ := ih
    exact a.exists_next

end Date

/-! ## Years that begin in March -/

namespace Date

/-- The year that a date belongs to when years begin in March. -/
def marchYear (a : Date) : ℤ := if a.month ≤ 2 then a.year - 1 else a.year

/-- The month of such a year; March is month 0. -/
def marchMonth (a : Date) : ℕ := if a.month ≤ 2 then a.month + 9 else a.month - 3

/-- The day of such a year; the first of March is day 0. -/
def marchDay (a : Date) : ℤ := (153 * (a.marchMonth : ℤ) + 2) / 5 + a.day - 1

/-- Five months from March or August on, or January, have 153 days or are cut off. -/
theorem monthLength_march (a : Date) : a.month = 2 ∧ a.marchMonth = 11 ∨
    a.marchMonth < 11 ∧ (153 * a.marchMonth + 2) / 5 + monthLength a.year a.month =
      (153 * (a.marchMonth + 1) + 2) / 5 := by
  obtain ⟨year, month, day, ⟨hlow, hhigh⟩, hday⟩ := a
  interval_cases month <;> simp [marchMonth, monthLength]

/-- The days of the year before a month, with the days of January and February in front. -/
theorem daysBeforeMonth_march (a : Date) (hmonth : ¬ a.month ≤ 2) :
    daysBeforeMonth a.year a.month + 306 = yearLength a.year + (153 * a.marchMonth + 2) / 5 := by
  obtain ⟨year, month, day, ⟨hlow, hhigh⟩, hday⟩ := a
  by_cases hleap : IsLeap year <;>
  · interval_cases month <;>
      simp [marchMonth, daysBeforeMonth, monthLength, yearLength, hleap] at hmonth ⊢

/-- The days before a date, counted from the first of March of year 0. -/
theorem dayNumber_march (a : Date) : (a.dayNumber : ℤ) - 60 =
    365 * a.marchYear + a.marchYear / 4 - a.marchYear / 100 + a.marchYear / 400 + a.marchDay := by
  have hday := a.day_mem
  by_cases hmonth : a.month ≤ 2
  · have hfront : daysBeforeMonth a.year a.month + 306 = (153 * a.marchMonth + 2) / 5 := by
      have hlow := a.month_mem
      have hcases : a.month = 1 ∨ a.month = 2 := by omega
      rcases hcases with h | h <;> simp [marchMonth, h, daysBeforeMonth, monthLength]
    have hcount := daysBeforeYear_eq a.year
    simp only [dayNumber, marchYear, marchDay, if_pos hmonth]
    omega
  · have hmarch := daysBeforeMonth_march a hmonth
    have hyear := daysBeforeYear_succ_eq a.year
    simp only [dayNumber, marchYear, marchDay, if_neg hmonth]
    omega

/-- Such a year has 366 days where it ends with a leap day. -/
theorem marchDay_le (a : Date) : 0 ≤ a.marchDay ∧ (a.marchDay ≤ 364 ∨ a.marchDay = 365 ∧
    a.marchYear % 4 = 3 ∧ (a.marchYear % 100 ≠ 99 ∨ a.marchYear % 400 = 399)) := by
  have hday := a.day_mem
  rw [marchDay]
  rcases a.monthLength_march with ⟨hmonth, hlast⟩ | ⟨hlast, hlength⟩
  · rw [monthLength, if_pos hmonth] at hday
    rw [marchYear, if_pos (by omega), hlast]
    by_cases hleap : IsLeap a.year
    · rw [if_pos hleap] at hday
      rw [IsLeap] at hleap
      omega
    · rw [if_neg hleap] at hday
      omega
  · omega

/-- The day of the year gives the month back. -/
theorem marchMonth_eq (a : Date) : (5 * a.marchDay + 2) / 153 = a.marchMonth := by
  have hday := a.day_mem
  have hlast := a.marchDay_le
  rw [marchDay] at hlast ⊢
  rcases a.monthLength_march with ⟨-, hmonth⟩ | ⟨hmonth, hlength⟩
  · omega
  · generalize a.marchMonth = month at *
    interval_cases month <;> omega

end Date

/-! ## Eras -/

section Eras

variable {year day dayOfEra : ℤ}

/-- The centuries of an era; its last day belongs to the last one. -/
theorem centuries_eq (hyear : 0 ≤ year ∧ year < 400) (hday : 0 ≤ day)
    (hleap : day ≤ 364 ∨ day = 365 ∧ year % 4 = 3 ∧ (year % 100 ≠ 99 ∨ year = 399))
    (h : dayOfEra = 365 * year + year / 4 - year / 100 + day) :
    dayOfEra / 36524 - dayOfEra / 146096 = year / 100 := by
  by_cases hlast : dayOfEra = 146096
  · omega
  · have hzero : dayOfEra / 146096 = 0 := by omega
    omega

/-- The year of an era, from its days without the leap days. -/
theorem yearOfEra_eq (hyear : 0 ≤ year ∧ year < 400) (hday : 0 ≤ day)
    (hleap : day ≤ 364 ∨ day = 365 ∧ year % 4 = 3 ∧ (year % 100 ≠ 99 ∨ year = 399))
    (h : dayOfEra = 365 * year + year / 4 - year / 100 + day) :
    (dayOfEra - dayOfEra / 1460 + dayOfEra / 36524 - dayOfEra / 146096) / 365 = year := by
  have hcenturies := centuries_eq hyear hday hleap h
  have hquads : dayOfEra / 1460 =
      year / 4 + (year / 4 - year / 100 + 365 * (year % 4) + day) / 1460 := by omega
  omega

end Eras

end Gregorian
