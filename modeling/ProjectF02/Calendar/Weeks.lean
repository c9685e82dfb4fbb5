import ProjectF02.Calendar.Years

/-! The year that a week belongs to.

Weeks begin on a fixed weekday, and the first week of a year is the first one with
enough of its days in that year. A day close to New Year may lie in a week of the
year before or after its own.
-/

set_option autoImplicit false

namespace ProjectF02.Calendar

/-- The weekday that begins a week, counted from Sunday, and how many days of a year its first week
needs. -/
structure WeekRules where
  firstWeekday : Fin 7
  minimumDays : ℤ
  some_day : 1 ≤ minimumDays
  one_week : minimumDays ≤ 7

variable (rules : WeekRules)

/-- The first day of the week of a day; 1 January 1970 was a Thursday. -/
def weekStart (day : ℤ) : ℤ := day - (day + 4 - rules.firstWeekday.val) % 7

/-- How many days of the week of a day lie on or after the first day of a year. -/
def daysFrom (year day : ℤ) : ℤ := weekStart rules day + 7 - newYear year

def firstWeek (year : ℤ) : ℤ :=
  if rules.minimumDays ≤ daysFrom rules year (newYear year) then weekStart rules (newYear year)
  else weekStart rules (newYear year) + 7

theorem firstWeek_le_iff (year day : ℤ) :
    firstWeek rules year ≤ day ↔ rules.minimumDays ≤ daysFrom rules year day := by
  have some_day := rules.some_day
  have one_week := rules.one_week
  unfold firstWeek daysFrom weekStart
  split <;> omega

theorem lt_firstWeek_iff (year day : ℤ) :
    day < firstWeek rules year ↔ daysFrom rules year day < rules.minimumDays := by
  rw [← not_le, firstWeek_le_iff, not_le]

theorem daysFrom_bounds (year day : ℤ) :
    day - newYear year < daysFrom rules year day ∧ daysFrom rules year day ≤ day - newYear year + 7 := by
  unfold daysFrom weekStart
  omega

theorem firstWeek_bounds (year : ℤ) :
    newYear year - 6 ≤ firstWeek rules year ∧ firstWeek rules year ≤ newYear year + 6 := by
  have some_day := rules.some_day
  have one_week := rules.one_week
  have before := daysFrom_bounds rules year (newYear year - 7)
  have after := daysFrom_bounds rules year (newYear year + 6)
  have late := (lt_firstWeek_iff rules year (newYear year - 7)).mpr (by omega)
  have early := (firstWeek_le_iff rules year (newYear year + 6)).mpr (by omega)
  omega

def weekBased : Years where
  first := firstWeek rules
  increasing year := by
    have length := newYear_add_le year
    have bounds := firstWeek_bounds rules year
    have bounds' := firstWeek_bounds rules (year + 1)
    omega

def weekYear (day : ℤ) : ℤ :=
  let year := yearOf day
  if day < firstWeek rules year then year - 1
  else if firstWeek rules (year + 1) ≤ day then year + 1
  else year

theorem weekBased_holds (day : ℤ) : (weekBased rules).Holds (weekYear rules day) day := by
  obtain ⟨started, lasting⟩ := gregorian_holds day
  change newYear (yearOf day) ≤ day at started
  change day < newYear (yearOf day + 1) at lasting
  by_cases before : day < firstWeek rules (yearOf day)
  · have year : weekYear rules day = yearOf day - 1 := if_pos before
    have previous := newYear_add_le (yearOf day - 1)
    have bounds := firstWeek_bounds rules (yearOf day - 1)
    rw [Int.sub_add_cancel] at previous
    rw [year]
    constructor
    · change firstWeek rules (yearOf day - 1) ≤ day
      omega
    · change day < firstWeek rules (yearOf day - 1 + 1)
      rwa [Int.sub_add_cancel]
  · by_cases after : firstWeek rules (yearOf day + 1) ≤ day
    · have year : weekYear rules day = yearOf day + 1 := (if_neg before).trans (if_pos after)
      have following := newYear_add_le (yearOf day + 1)
      have bounds := firstWeek_bounds rules (yearOf day + 1 + 1)
      rw [year]
      constructor
      · exact after
      · change day < firstWeek rules (yearOf day + 1 + 1)
        omega
    · have year : weekYear rules day = yearOf day := (if_neg before).trans (if_neg after)
      rw [year]
      exact ⟨not_lt.mp before, not_le.mp after⟩

theorem weekYear_eq_yearOf_iff (day : ℤ) :
    weekYear rules day = yearOf day ↔
      rules.minimumDays ≤ daysFrom rules (yearOf day) day ∧
        daysFrom rules (yearOf day + 1) day < rules.minimumDays := by
  rw [← firstWeek_le_iff, ← lt_firstWeek_iff]
  constructor
  · intro same
    have holds := weekBased_holds rules day
    rw [same] at holds
    exact ⟨holds.started, holds.lasting⟩
  · rintro ⟨started, lasting⟩
    exact (weekBased_holds rules day).unique ⟨started, lasting⟩

end ProjectF02.Calendar
