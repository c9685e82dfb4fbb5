import Mathlib.Order.Monotone.Basic
import Mathlib.Algebra.Order.Group.Int
import Mathlib.Order.SuccPred.Basic

/-! Years as cuts of the line of days.

Days are counted from 1 January 1970. A kind of year is known by its first days, which
increase with the year; every day lies in at most one year of a kind. The calendar
year is found by walking down the cycles of 400, 100, 4 and 1 years.
-/

set_option autoImplicit false

namespace ProjectF02.Calendar

structure Years where
  first : ℤ → ℤ
  increasing : ∀ year, first year < first (year + 1)

namespace Years
variable {years : Years} {year other day : ℤ}

structure Holds (years : Years) (year day : ℤ) : Prop where
  started : years.first year ≤ day
  lasting : day < years.first (year + 1)

theorem lt_of_first_lt (earlier : years.first year < years.first other) : year < other :=
  (strictMono_int_of_lt_succ years.increasing).lt_iff_lt.mp earlier

theorem Holds.le (first : years.Holds year day) (second : years.Holds other day) : year ≤ other := by
  have earlier := first.started.trans_lt second.lasting
  exact Int.lt_add_one_iff.mp (lt_of_first_lt earlier)

theorem Holds.unique (first : years.Holds year day) (second : years.Holds other day) : year = other :=
  le_antisymm (first.le second) (second.le first)

end Years

def IsLeap (year : ℤ) : Prop := year % 4 = 0 ∧ (year % 100 ≠ 0 ∨ year % 400 = 0)

instance instDecidableIsLeap (year : ℤ) : Decidable (IsLeap year) := inferInstanceAs (Decidable (_ ∧ _))

/-- 1 January of a year. -/
def newYear (year : ℤ) : ℤ :=
  365 * (year - 1970) + (year - 1969) / 4 - (year - 1901) / 100 + (year - 1601) / 400

theorem newYear_succ (year : ℤ) : newYear (year + 1) = newYear year + if IsLeap year then 366 else 365 := by
  unfold newYear
  split
  next leap => obtain ⟨four, hundred⟩ := leap; omega
  next common =>
    rw [IsLeap, not_and_or, not_or] at common
    omega

theorem newYear_add_le (year : ℤ) : newYear year + 365 ≤ newYear (year + 1) := by
  rw [newYear_succ]
  split <;> omega

def gregorian : Years where
  first := newYear
  increasing year := by
    have length := newYear_add_le year
    omega

theorem newYear_cycles {q c f s : ℤ} (centuries : 0 ≤ c ∧ c ≤ 3) (fourYears : 0 ≤ f ∧ f ≤ 24)
    (lastYears : 0 ≤ s ∧ s ≤ 3) :
    newYear (400 * q + 100 * c + 4 * f + s + 1) = newYear 1 + 146097 * q + 36524 * c + 1461 * f + 365 * s := by
  unfold newYear
  omega

/-- The last day of a cycle of 400 or of 4 years would begin another cycle of 100 years or 1 year. -/
def yearOf (day : ℤ) : ℤ :=
  let sinceYearOne := day - newYear 1
  let inFourCenturies := sinceYearOne % 146097
  let centuries := min 3 (inFourCenturies / 36524)
  let inCentury := inFourCenturies - 36524 * centuries
  let lastYears := min 3 (inCentury % 1461 / 365)
  400 * (sinceYearOne / 146097) + 100 * centuries + 4 * (inCentury / 1461) + lastYears + 1

theorem gregorian_holds (day : ℤ) : gregorian.Holds (yearOf day) day := by
  have split := Int.mul_ediv_add_emod (day - newYear 1) 146097
  obtain ⟨q, dq⟩ : ∃ q, q = (day - newYear 1) / 146097 := ⟨_, rfl⟩
  obtain ⟨r, dr⟩ : ∃ r, r = (day - newYear 1) % 146097 := ⟨_, rfl⟩
  obtain ⟨c, dc⟩ : ∃ c, c = min 3 (r / 36524) := ⟨_, rfl⟩
  obtain ⟨f, df⟩ : ∃ f, f = (r - 36524 * c) / 1461 := ⟨_, rfl⟩
  obtain ⟨s, ds⟩ : ∃ s, s = min 3 ((r - 36524 * c) % 1461 / 365) := ⟨_, rfl⟩
  have year : yearOf day = 400 * q + 100 * c + 4 * f + s + 1 := by
    subst ds df dc dr dq
    rfl
  have remainder : 0 ≤ r ∧ r < 146097 := by omega
  have centuries : 0 ≤ c ∧ c ≤ 3 := by omega
  have fourYears : 0 ≤ f ∧ f ≤ 24 := by omega
  have lastYears : 0 ≤ s ∧ s ≤ 3 := by omega
  have start := newYear_cycles (q := q) centuries fourYears lastYears
  constructor
  · change newYear (yearOf day) ≤ day
    rw [year, start]
    omega
  · change day < newYear (yearOf day + 1)
    rw [year, newYear_succ, start]
    unfold IsLeap
    omega

def monthLengths (year : ℤ) : List ℕ :=
  [31, if IsLeap year then 29 else 28, 31, 30, 31, 30, 31, 31, 30, 31, 30, 31]

def inMonths : List ℕ → ℕ → ℕ × ℕ
  | [], day => (0, day)
  | length :: lengths, day =>
    if day < length then (0, day)
    else
      let (month, day) := inMonths lengths (day - length)
      (month + 1, day)

end ProjectF02.Calendar
