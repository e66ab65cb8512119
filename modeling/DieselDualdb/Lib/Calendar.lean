import Mathlib.Algebra.Group.Nat.Defs
import Mathlib.Tactic.Common

/-!
# The proleptic Gregorian calendar

A date of the calendar carries its own validity (`CivilDate`).  Every day has
one: `CivilDate.ofDayNumber` finds the year first, then the month, and
`dayNumber_ofDayNumber` says that counting the days of the date it finds gives
the day back.  Day 0 is 1 January of year 1.
-/

namespace Calendar

def isLeap (y : Int) : Bool :=
  y % 4 = 0 && (y % 100 ≠ 0 || y % 400 = 0)

/-- Days from 1 January of year 1 to 1 January of year `y`. -/
def daysBeforeYear (y : Int) : Int :=
  365 * (y - 1) + (y - 1) / 4 - (y - 1) / 100 + (y - 1) / 400

def yearLength (y : Int) : Int := if isLeap y then 366 else 365

theorem daysBeforeYear_succ (y : Int) :
    daysBeforeYear (y + 1) = daysBeforeYear y + yearLength y := by
  simp only [daysBeforeYear, yearLength, isLeap]
  by_cases h4 : y % 4 = 0
  · by_cases h100 : y % 100 = 0
    · by_cases h400 : y % 400 = 0
      · simp only [h4, h100, h400, decide_true, Bool.true_and, ne_eq,
          not_true_eq_false, decide_false, Bool.false_or, if_true]
        omega
      · simp only [h4, h100, h400, decide_true, Bool.true_and, ne_eq,
          not_true_eq_false, decide_false, Bool.false_or, Bool.false_eq_true,
          if_false]
        omega
    · simp only [h4, h100, decide_true, Bool.true_and, ne_eq,
        not_false_eq_true, Bool.true_or, if_true]
      omega
  · simp only [h4, decide_false, Bool.false_and, Bool.false_eq_true, if_false]
    omega

/-! ## The year of a day -/

/-- The average year has 146097 / 400 days; the estimate is off by at most
    one. -/
def yearOf (n : Int) : Int :=
  let y := n * 400 / 146097 + 1
  if n < daysBeforeYear y then y - 1
  else if daysBeforeYear (y + 1) ≤ n then y + 1
  else y

theorem yearOf_spec (n : Int) :
    daysBeforeYear (yearOf n) ≤ n ∧ n < daysBeforeYear (yearOf n + 1) := by
  have hlow : daysBeforeYear (n * 400 / 146097 + 1 - 1) ≤ n := by
    simp only [daysBeforeYear]
    omega
  have hhigh : n < daysBeforeYear (n * 400 / 146097 + 1 + 1 + 1) := by
    simp only [daysBeforeYear]
    omega
  rw [yearOf]
  generalize n * 400 / 146097 + 1 = y at hlow hhigh
  by_cases h : n < daysBeforeYear y
  · simp only [if_pos h]
    exact ⟨hlow, by rwa [Int.sub_add_cancel]⟩
  · by_cases h' : daysBeforeYear (y + 1) ≤ n
    · simp only [if_neg h, if_pos h']
      exact ⟨h', hhigh⟩
    · simp only [if_neg h, if_neg h']
      exact ⟨Int.not_lt.mp h, Int.not_le.mp h'⟩

/-! ## Months -/

def daysInMonth (leap : Bool) (m : Nat) : Nat :=
  if m = 2 then (if leap then 29 else 28)
  else if m = 4 ∨ m = 6 ∨ m = 9 ∨ m = 11 then 30
  else 31

/-- Days of the year before the first of month `m`. -/
def daysBeforeMonth (leap : Bool) : Nat → Nat
  | 0 => 0
  | 1 => 0
  | m + 1 => daysBeforeMonth leap m + daysInMonth leap m

/-- The month of the day `d` of the year, searched from month `m` on. -/
def monthFrom (leap : Bool) (d : Nat) : (fuel m : Nat) → Nat
  | 0, m => m
  | fuel + 1, m =>
      if d < daysBeforeMonth leap (m + 1) then m
      else monthFrom leap d fuel (m + 1)

def monthOf (leap : Bool) (d : Nat) : Nat := monthFrom leap d 11 1

theorem monthFrom_spec (leap : Bool) (d : Nat) :
    ∀ fuel m, daysBeforeMonth leap m ≤ d →
      d < daysBeforeMonth leap (m + fuel + 1) →
      m ≤ monthFrom leap d fuel m ∧ monthFrom leap d fuel m ≤ m + fuel ∧
        daysBeforeMonth leap (monthFrom leap d fuel m) ≤ d ∧
        d < daysBeforeMonth leap (monthFrom leap d fuel m + 1) := by
  intro fuel
  induction fuel with
  | zero =>
      intro m hlow hhigh
      exact ⟨Nat.le_refl m, Nat.le_refl m, hlow, hhigh⟩
  | succ fuel ih =>
      intro m hlow hhigh
      rw [monthFrom]
      by_cases h : d < daysBeforeMonth leap (m + 1)
      · rw [if_pos h]
        exact ⟨Nat.le_refl m, Nat.le_add_right _ _, hlow, h⟩
      · rw [if_neg h]
        have hhigh' : d < daysBeforeMonth leap (m + 1 + fuel + 1) := by
          rwa [show m + 1 + fuel + 1 = m + (fuel + 1) + 1 by omega]
        obtain ⟨h₁, h₂, h₃, h₄⟩ := ih (m + 1) (Nat.not_lt.mp h) hhigh'
        exact ⟨by omega, by omega, h₃, h₄⟩

theorem daysBeforeMonth_succ (leap : Bool) {m : Nat} (h : 1 ≤ m) :
    daysBeforeMonth leap (m + 1)
      = daysBeforeMonth leap m + daysInMonth leap m := by
  obtain ⟨k, rfl⟩ := Nat.exists_eq_add_of_le' h
  rfl

/-- The month's days contain the day. -/
theorem monthOf_spec {leap : Bool} {d : Nat}
    (h : d < if leap then 366 else 365) :
    1 ≤ monthOf leap d ∧ monthOf leap d ≤ 12 ∧
      daysBeforeMonth leap (monthOf leap d) ≤ d ∧
      d < daysBeforeMonth leap (monthOf leap d)
        + daysInMonth leap (monthOf leap d) := by
  have hyear : d < daysBeforeMonth leap (1 + 11 + 1) := by
    cases leap
    · exact h
    · exact h
  obtain ⟨h₁, h₂, h₃, h₄⟩ := monthFrom_spec leap d 11 1 (Nat.zero_le d) hyear
  rw [daysBeforeMonth_succ leap h₁] at h₄
  exact ⟨h₁, h₂, h₃, h₄⟩

/-! ## Dates -/

/-- A date of the calendar. -/
structure CivilDate where
  year : Int
  month : Nat
  day : Nat
  month_pos : 1 ≤ month
  month_le : month ≤ 12
  day_pos : 1 ≤ day
  day_le : day ≤ daysInMonth (isLeap year) month

/-- Days from 1 January of year 1. -/
def CivilDate.dayNumber (c : CivilDate) : Int :=
  daysBeforeYear c.year
    + (daysBeforeMonth (isLeap c.year) c.month + (c.day - 1) : Nat)

/-- The day of the year, counted from 0. -/
def ordinal (n : Int) : Nat := (n - daysBeforeYear (yearOf n)).toNat

theorem ordinal_lt (n : Int) :
    ordinal n < if isLeap (yearOf n) then 366 else 365 := by
  obtain ⟨hlow, hhigh⟩ := yearOf_spec n
  rw [daysBeforeYear_succ, yearLength] at hhigh
  rw [ordinal]
  by_cases hleap : isLeap (yearOf n) = true
  · simp only [hleap, if_true] at hhigh ⊢
    omega
  · simp only [hleap, Bool.false_eq_true, if_false] at hhigh ⊢
    omega

def CivilDate.ofDayNumber (n : Int) : CivilDate where
  year := yearOf n
  month := monthOf (isLeap (yearOf n)) (ordinal n)
  day := ordinal n - daysBeforeMonth (isLeap (yearOf n))
    (monthOf (isLeap (yearOf n)) (ordinal n)) + 1
  month_pos := (monthOf_spec (ordinal_lt n)).1
  month_le := (monthOf_spec (ordinal_lt n)).2.1
  day_pos := Nat.le_add_left _ _
  day_le := by
    obtain ⟨-, -, h₃, h₄⟩ := monthOf_spec (ordinal_lt n)
    omega

/-- **EVERY DAY HAS A DATE**, and the date counts back to the day. -/
theorem CivilDate.dayNumber_ofDayNumber (n : Int) :
    (CivilDate.ofDayNumber n).dayNumber = n := by
  obtain ⟨-, -, h₃, -⟩ := monthOf_spec (ordinal_lt n)
  have hlow := (yearOf_spec n).1
  have hordinal : (ordinal n : Int) = n - daysBeforeYear (yearOf n) := by
    simp only [ordinal]
    omega
  simp only [CivilDate.dayNumber, CivilDate.ofDayNumber]
  omega

/-! ## Calendar order -/

theorem CivilDate.month_lt (c : CivilDate) : c.month < 10 ^ 2 := by
  have hle := c.month_le
  omega

/-- No month has a day of three digits. -/
theorem CivilDate.day_lt (c : CivilDate) : c.day < 10 ^ 2 := by
  have hle := c.day_le
  have h31 : daysInMonth (isLeap c.year) c.month ≤ 31 := by
    rw [daysInMonth]
    split
    · split <;> omega
    · split <;> omega
  omega

theorem month_within_year (leap : Bool) : ∀ m < 13, ∀ m' < 13, 1 ≤ m →
    daysBeforeMonth leap m + daysInMonth leap m ≤ (if leap then 366 else 365) ∧
      (m < m' → daysBeforeMonth leap m + daysInMonth leap m
        ≤ daysBeforeMonth leap m') := by
  cases leap <;> decide

/-- An earlier year, month or day is an earlier day. -/
theorem CivilDate.dayNumber_lt {c c' : CivilDate} (h : c.year < c'.year ∨
    c.year = c'.year ∧ (c.month < c'.month ∨
      c.month = c'.month ∧ c.day < c'.day)) :
    c.dayNumber < c'.dayNumber := by
  have hday := c.day_le
  have hpos := c.day_pos
  obtain ⟨hyear, hmonth⟩ := month_within_year (isLeap c.year) c.month
    (Nat.lt_succ_of_le c.month_le) c'.month (Nat.lt_succ_of_le c'.month_le)
    c.month_pos
  rw [CivilDate.dayNumber, CivilDate.dayNumber]
  rcases h with h | ⟨heq, h | ⟨hm, h⟩⟩
  · -- the day is in its own year, which ends before the later one
    have hend : daysBeforeYear (c.year + 1) ≤ daysBeforeYear c'.year := by
      simp only [daysBeforeYear]
      omega
    rw [daysBeforeYear_succ, yearLength] at hend
    split at hend
    · next hleap =>
        rw [if_pos hleap] at hyear
        omega
    · next hleap =>
        rw [if_neg hleap] at hyear
        omega
  · have hstart := hmonth h
    rw [← heq]
    omega
  · rw [← heq, ← hm]
    omega

/-- **DATES ARE ORDERED AS DAYS**. -/
theorem CivilDate.dayNumber_lt_iff (c c' : CivilDate) :
    c.dayNumber < c'.dayNumber ↔ c.year < c'.year ∨ c.year = c'.year ∧
      (c.month < c'.month ∨ c.month = c'.month ∧ c.day < c'.day) := by
  refine ⟨fun h => ?_, CivilDate.dayNumber_lt⟩
  by_contra hnot
  -- otherwise the other date is earlier, or they are the same
  by_cases hother : c'.year < c.year ∨ c'.year = c.year ∧
      (c'.month < c.month ∨ c'.month = c.month ∧ c'.day < c.day)
  · have hgt := CivilDate.dayNumber_lt hother
    omega
  · have hyear : c.year = c'.year := by omega
    have hmonth : c.month = c'.month := by omega
    have hday : c.day = c'.day := by omega
    rw [CivilDate.dayNumber, CivilDate.dayNumber, hyear, hmonth, hday] at h
    omega

end Calendar
