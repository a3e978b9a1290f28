import Mathlib.Data.Nat.Notation

/-!
# The Gregorian calendar

Dates from 1 January of year 1 on, by the rules of today's calendar throughout, and their
numbers: the days passed since that day.

## Main definitions

* `Calendar.Date`, `Date.number` — a date that exists, and its number.
* `Calendar.ofNumber`, `number_ofNumber` — the date of a number.
* `Calendar.year_ofNumber_lt` — the numbers before a year are dates before it.
-/

namespace Calendar

def isLeap (year : ℕ) : Bool := year % 4 = 0 && (year % 100 ≠ 0 || year % 400 = 0)

/-- Days passed at the start of a year. -/
def daysBeforeYear (year : ℕ) : ℕ :=
  (year - 1) * 365 + (year - 1) / 4 - (year - 1) / 100 + (year - 1) / 400

def daysInMonth (leap : Bool) (month : ℕ) : ℕ :=
  if month = 2 then if leap then 29 else 28
  else if month = 4 ∨ month = 6 ∨ month = 9 ∨ month = 11 then 30
  else 31

/-- Days of a year passed at the start of a month. -/
def daysBeforeMonth (leap : Bool) : ℕ → ℕ
  | 0 | 1 => 0
  | month + 2 => daysBeforeMonth leap (month + 1) + daysInMonth leap (month + 1)

structure Date where
  year : ℕ
  month : ℕ
  day : ℕ
  year_pos : 0 < year
  month_range : 1 ≤ month ∧ month ≤ 12
  day_range : 1 ≤ day ∧ day ≤ daysInMonth (isLeap year) month
  deriving DecidableEq

def Date.number (d : Date) : ℕ :=
  daysBeforeYear d.year + daysBeforeMonth (isLeap d.year) d.month + (d.day - 1)

/-! ## The date of a number -/

/-- The year of a day, and the days of it passed. Of the four centuries of 400 years, and of the
four years of a leap cycle, the last is a day longer. -/
def splitYear (n : ℕ) : ℕ × ℕ :=
  let n400 := n % 146097
  let centuries := min (n400 / 36524) 3
  let n100 := n400 - centuries * 36524
  let n4 := n100 % 1461
  let years := min (n4 / 365) 3
  (n / 146097 * 400 + centuries * 100 + n100 / 1461 * 4 + years + 1, n4 - years * 365)

/-- The month of a day of the year: the last that has begun. -/
def monthOf (leap : Bool) (days : ℕ) : ℕ :=
  ((List.range 12).filter fun m => daysBeforeMonth leap (m + 1) ≤ days).length

/-- The split in its own terms: cycles of 400, 100 and 4 years, years and days. -/
theorem splitYear_parts (n : ℕ) : ∃ a b c d e, b ≤ 3 ∧ c ≤ 24 ∧ d ≤ 3 ∧
    n = 146097 * a + 36524 * b + 1461 * c + 365 * d + e ∧
    (e < 365 ∨ e = 365 ∧ d = 3 ∧ (c < 24 ∨ b = 3)) ∧
    splitYear n = (400 * a + 100 * b + 4 * c + d + 1, e) := by
  obtain ⟨b, hb⟩ : ∃ b, b = min (n % 146097 / 36524) 3 := ⟨_, rfl⟩
  obtain ⟨m, hm⟩ : ∃ m, m = n % 146097 - b * 36524 := ⟨_, rfl⟩
  obtain ⟨d, hd⟩ : ∃ d, d = min (m % 1461 / 365) 3 := ⟨_, rfl⟩
  have hmb : m < 36524 ∨ m = 36524 ∧ b = 3 := by omega
  refine ⟨n / 146097, b, m / 1461, d, m % 1461 - d * 365, by omega, by omega, by omega, by omega,
    by omega, ?_⟩
  rw [splitYear, ← hb, ← hm, ← hd, Prod.mk.injEq]
  exact ⟨by omega, rfl⟩

theorem splitYear_spec (n : ℕ) :
    0 < (splitYear n).1 ∧ daysBeforeYear (splitYear n).1 + (splitYear n).2 = n ∧
      (splitYear n).2 < if isLeap (splitYear n).1 then 366 else 365 := by
  obtain ⟨a, b, c, d, e, hb, hc, hd, hn, he, hsplit⟩ := splitYear_parts n
  rw [hsplit]
  refine ⟨Nat.succ_pos _, ?_, ?_⟩
  · simp only [daysBeforeYear, Nat.add_sub_cancel]
    have h4 : (400 * a + 100 * b + 4 * c + d) / 4 = 100 * a + 25 * b + c := by omega
    have h100 : (400 * a + 100 * b + 4 * c + d) / 100 = 4 * a + b := by omega
    have h400 : (400 * a + 100 * b + 4 * c + d) / 400 = a := by omega
    omega
  · rcases he with he | ⟨rfl, rfl, hlast⟩
    · show e < _
      split <;> omega
    · -- The last day of a leap year: of a fourth year that ends no century but the last.
      have hleap : isLeap (400 * a + 100 * b + 4 * c + 3 + 1) = true := by
        simp only [isLeap, Bool.and_eq_true, Bool.or_eq_true, decide_eq_true_eq]
        omega
      rw [if_pos hleap]
      exact Nat.lt_succ_self 365

theorem monthOf_spec : ∀ (leap : Bool), ∀ days < (if leap then 366 else 365),
    (1 ≤ monthOf leap days ∧ monthOf leap days ≤ 12) ∧
      daysBeforeMonth leap (monthOf leap days) ≤ days ∧
      days < daysBeforeMonth leap (monthOf leap days) + daysInMonth leap (monthOf leap days) := by
  decide +kernel

def ofNumber (n : ℕ) : Date where
  year := (splitYear n).1
  month := monthOf (isLeap (splitYear n).1) (splitYear n).2
  day := (splitYear n).2 -
    daysBeforeMonth (isLeap (splitYear n).1) (monthOf (isLeap (splitYear n).1) (splitYear n).2) + 1
  year_pos := (splitYear_spec n).1
  month_range := (monthOf_spec _ _ (splitYear_spec n).2.2).1
  day_range := by
    have := (monthOf_spec _ _ (splitYear_spec n).2.2).2
    omega

theorem number_ofNumber (n : ℕ) : (ofNumber n).number = n := by
  obtain ⟨-, hyear, hdays⟩ := splitYear_spec n
  obtain ⟨-, hle, -⟩ := monthOf_spec _ _ hdays
  simp only [ofNumber, Date.number, Nat.add_sub_cancel]
  omega

theorem daysBeforeYear_le {a b : ℕ} (h : a ≤ b) : daysBeforeYear a ≤ daysBeforeYear b := by
  rcases Nat.eq_or_lt_of_le h with rfl | hlt
  · exact Nat.le_refl _
  · simp only [daysBeforeYear]
    omega

theorem year_ofNumber_lt {n year : ℕ} (h : n < daysBeforeYear year) :
    (ofNumber n).year < year := by
  refine Nat.lt_of_not_le fun hge => ?_
  have hle := daysBeforeYear_le hge
  have hnumber := number_ofNumber n
  rw [Date.number] at hnumber
  omega

example : ofNumber 719162 = ⟨1970, 1, 1, by decide, by decide, by decide⟩ := by decide

end Calendar
