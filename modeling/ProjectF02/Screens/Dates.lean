import Mathlib.Data.Rat.Floor
import ProjectF02.Swift.DateFormatter

/-! The years on the screens.

Posts print the calendar year. The birthday and the dates between messages print the
year that the week belongs to, which differs for a few days around New Year.
-/

set_option autoImplicit false

namespace ProjectF02
open Swift Calendar

variable {Double : Type} [Ring Double] [LinearOrder Double] [FloorRing Double]

/-! `current` is a fresh formatter, with the time zone and the locale of the device. -/

/-- The formatter of `getDateString`, which prints the birthday. -/
def Swift.Date.dateFormatter (current : DateFormatter Double) : DateFormatter Double :=
  { current with dateFormat := "MMM dd, YYYY" }

/-- The formatter of `cellForRowAt`. -/
def ChatViewController.dateFormat (current : DateFormatter Double) : DateFormatter Double :=
  { current with dateFormat := "dd/MM/YYYY , hh:mm:ss" }

/-- The formatter of `fillData`, with the time zone `GMT`. -/
def PostTableViewCell.dateFormatter (current : DateFormatter Double) : DateFormatter Double :=
  { current with timeZone := fun _ => 0, dateFormat := "HH:mm dd/MM/yyyy " }

/-- The formatter of a post in the time zone of the other two. -/
def posted (current : DateFormatter Double) : DateFormatter Double :=
  { PostTableViewCell.dateFormatter current with timeZone := current.timeZone }

namespace Swift.DateFormatter

def day (formatter : DateFormatter Double) (date : Date Double) : ℤ := formatter.localSeconds date / 86400

/-- The week of the date has enough days in the year of the date and too few in the next. -/
def WeekInYear (formatter : DateFormatter Double) (date : Date Double) : Prop :=
  let rules := formatter.locale.weekRules
  let day := formatter.day date
  rules.minimumDays ≤ daysFrom rules (yearOf day) day ∧ daysFrom rules (yearOf day + 1) day < rules.minimumDays

theorem years_weekYear {formatter : DateFormatter Double} {pattern : String} (date : Date Double)
    (used : formatter.dateFormat = pattern)
    (cut : (Run.cut pattern.toList).filter Run.isYear = [⟨'Y', 4⟩]) :
    formatter.years date =
      [formatter.locale.number 4 (weekYear formatter.locale.weekRules (formatter.day date))] := by
  rw [years, used, cut]
  rfl

theorem years_year {formatter : DateFormatter Double} {pattern : String} (date : Date Double)
    (used : formatter.dateFormat = pattern)
    (cut : (Run.cut pattern.toList).filter Run.isYear = [⟨'y', 4⟩]) :
    formatter.years date = [formatter.locale.number 4 (yearOf (formatter.day date))] := by
  rw [years, used, cut]
  rfl

theorem weekInYear_enUS {formatter : DateFormatter Double} (american : formatter.locale = enUS)
    (date : Date Double) :
    formatter.WeekInYear date ↔
      daysFrom sundayWeeks (yearOf (formatter.day date) + 1) (formatter.day date) ≤ 0 := by
  have started : newYear (yearOf (formatter.day date)) ≤ formatter.day date := (gregorian_holds _).started
  have bounds := daysFrom_bounds sundayWeeks (yearOf (formatter.day date)) (formatter.day date)
  rw [WeekInYear, american]
  change 1 ≤ daysFrom sundayWeeks _ _ ∧ daysFrom sundayWeeks _ _ < 1 ↔ _
  omega

end Swift.DateFormatter

theorem years_calendar_iff (current : DateFormatter Double) (date : Date Double) :
    (posted current).years date = [current.locale.number 4 (yearOf (current.day date))] ∧
      (((Date.dateFormatter current).years date = (posted current).years date ∧
          (ChatViewController.dateFormat current).years date = (posted current).years date) ↔
        current.WeekInYear date) := by
  have postPattern : (posted current).dateFormat = "HH:mm dd/MM/yyyy " := rfl
  have birthdayPattern : (Date.dateFormatter current).dateFormat = "MMM dd, YYYY" := rfl
  have chatPattern : (ChatViewController.dateFormat current).dateFormat = "dd/MM/YYYY , hh:mm:ss" := rfl
  have calendar : (posted current).years date = [current.locale.number 4 (yearOf (current.day date))] :=
    DateFormatter.years_year date postPattern (by decide)
  have birthday : (Date.dateFormatter current).years date =
      [current.locale.number 4 (weekYear current.locale.weekRules (current.day date))] :=
    DateFormatter.years_weekYear date birthdayPattern (by decide)
  have separator : (ChatViewController.dateFormat current).years date =
      [current.locale.number 4 (weekYear current.locale.weekRules (current.day date))] :=
    DateFormatter.years_weekYear date chatPattern (by decide)
  refine ⟨calendar, ?_⟩
  rw [calendar, birthday, separator, and_self, List.singleton_inj,
    (current.locale.number_injective 4).eq_iff]
  exact weekYear_eq_yearOf_iff current.locale.weekRules (current.day date)

def american : DateFormatter ℚ where
  timeZone _ := 0
  locale := enUS

theorem years_last_monday :
    (Date.dateFormatter american).years ⟨1546214400⟩ = ["2019"] ∧
      (ChatViewController.dateFormat american).years ⟨1546214400⟩ = ["2019"] ∧
      (posted american).years ⟨1546214400⟩ = ["2018"] := by
  decide

end ProjectF02
