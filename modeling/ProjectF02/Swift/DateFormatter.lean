import ProjectF02.Calendar.Weeks
import ProjectF02.Swift.Value

/-! What a date formatter prints.

A pattern is cut into runs of one letter, and a run prints a field of the date or
itself. Only the letters of the patterns in use are known here. Years are those of
the Gregorian calendar, counted on before the first one.
-/

set_option autoImplicit false

namespace ProjectF02.Swift
open Calendar

/-- `number` prints an integer with at least so many digits. -/
structure Locale where
  weekRules : WeekRules
  shortMonths : ℕ → String
  number : ℕ → ℤ → String
  number_injective : ∀ digits, Function.Injective (number digits)

inductive Symbol where
  | year
  | weekYear
  | month
  | day
  | hour
  | hourOfTwelve
  | minute
  | second
  deriving DecidableEq, Repr

namespace Symbol

def ofLetter : Char → Option Symbol
  | 'y' => some .year
  | 'Y' => some .weekYear
  | 'M' => some .month
  | 'd' => some .day
  | 'H' => some .hour
  | 'h' => some .hourOfTwelve
  | 'm' => some .minute
  | 's' => some .second
  | _ => none

/-- The month, counted from 0, and the day in it. -/
def monthAndDay (day : ℤ) : ℕ × ℕ :=
  inMonths (monthLengths (yearOf day)) (day - newYear (yearOf day)).toNat

/-- The value of a field, by the seconds that the local clock has counted since 1970. -/
def value (rules : WeekRules) (seconds : ℤ) : Symbol → ℤ
  | .year => yearOf (seconds / 86400)
  | .weekYear => Calendar.weekYear rules (seconds / 86400)
  | .month => (monthAndDay (seconds / 86400)).1 + 1
  | .day => (monthAndDay (seconds / 86400)).2 + 1
  | .hour => seconds / 3600 % 24
  | .hourOfTwelve => (seconds / 3600 + 11) % 12 + 1
  | .minute => seconds / 60 % 60
  | .second => seconds % 60

def isYear : Symbol → Bool
  | .year | .weekYear => true
  | _ => false

end Symbol

structure Run where
  letter : Char
  length : ℕ
  deriving DecidableEq, Repr

namespace Run

def text (locale : Locale) (seconds : ℤ) (run : Run) : String :=
  match Symbol.ofLetter run.letter with
  | none => .ofList (.replicate run.length run.letter)
  | some symbol =>
    if symbol = .month ∧ 3 ≤ run.length then locale.shortMonths (Symbol.monthAndDay (seconds / 86400)).1
    else locale.number run.length (symbol.value locale.weekRules seconds)

def isYear (run : Run) : Bool := (Symbol.ofLetter run.letter).any Symbol.isYear

def cut (pattern : List Char) : List Run :=
  (pattern.splitBy (· == ·)).map fun letters => ⟨letters.headD ' ', letters.length⟩

end Run

variable {Double : Type} [Ring Double] [LinearOrder Double] [FloorRing Double]

/-- The time zone is known by its distance from GMT in seconds, which may change with the date. -/
structure DateFormatter (Double : Type) where
  timeZone : Date Double → ℤ
  locale : Locale
  dateFormat : String := ""

namespace DateFormatter

def localSeconds (formatter : DateFormatter Double) (date : Date Double) : ℤ :=
  ⌊date.timeIntervalSince1970⌋ + formatter.timeZone date

def texts (formatter : DateFormatter Double) (date : Date Double) (runs : List Run) : List String :=
  runs.map (Run.text formatter.locale (formatter.localSeconds date))

def string (formatter : DateFormatter Double) (date : Date Double) : String :=
  String.join (formatter.texts date (Run.cut formatter.dateFormat.toList))

/-- The parts of the printed text that are years. -/
def years (formatter : DateFormatter Double) (date : Date Double) : List String :=
  formatter.texts date ((Run.cut formatter.dateFormat.toList).filter Run.isYear)

end DateFormatter

/-- Weeks begin on Sunday, and the week of 1 January is the first one. -/
def sundayWeeks : WeekRules where
  firstWeekday := 0
  minimumDays := 1
  some_day := le_rfl
  one_week := by decide

def zeroPadded (digits n : ℕ) : List Char :=
  List.replicate (digits - (Nat.toDigits 10 n).length) '0' ++ Nat.toDigits 10 n

theorem ofDigitChars_zeroPadded (digits n : ℕ) : Nat.ofDigitChars 10 (zeroPadded digits n) 0 = n := by
  rw [zeroPadded, Nat.ofDigitChars_append, Nat.ofDigitChars_replicate_zero, Nat.mul_zero,
    Nat.ofDigitChars_toDigits (by decide) (by decide)]

theorem isDigit_of_mem_zeroPadded {digits n : ℕ} {c : Char} (member : c ∈ zeroPadded digits n) :
    c.isDigit = true := by
  rcases List.mem_append.mp member with zero | digit
  · rw [List.eq_of_mem_replicate zero]
    rfl
  · exact Nat.isDigit_of_mem_toDigits (by decide) (by decide) digit

def latinNumber (digits : ℕ) : ℤ → List Char
  | .ofNat n => zeroPadded digits n
  | .negSucc n => '-' :: zeroPadded digits (n + 1)

theorem zeroPadded_injective (digits : ℕ) : Function.Injective (zeroPadded digits) := by
  intro first second same
  have read := congrArg (fun text => Nat.ofDigitChars 10 text 0) same
  simpa only [ofDigitChars_zeroPadded] using read

theorem latinNumber_injective (digits : ℕ) : Function.Injective (latinNumber digits) := by
  have unsigned (n m : ℕ) : zeroPadded digits n ≠ '-' :: zeroPadded digits m := by
    intro same
    have sign : '-' ∈ zeroPadded digits n := same ▸ List.mem_cons_self
    exact absurd (isDigit_of_mem_zeroPadded sign) (by decide)
  intro first second same
  cases first with
  | ofNat n =>
    cases second with
    | ofNat m => rw [zeroPadded_injective digits same]
    | negSucc m => exact absurd same (unsigned n (m + 1))
  | negSucc n =>
    cases second with
    | ofNat m => exact absurd same.symm (unsigned m (n + 1))
    | negSucc m =>
      have equal := zeroPadded_injective digits (List.cons.inj same).2
      rw [Nat.succ_inj.mp equal]

def enUS : Locale where
  weekRules := sundayWeeks
  shortMonths month :=
    ["Jan", "Feb", "Mar", "Apr", "May", "Jun", "Jul", "Aug", "Sep", "Oct", "Nov", "Dec"].getD month ""
  number digits n := .ofList (latinNumber digits n)
  number_injective digits _ _ same := latinNumber_injective digits (String.ofList_injective same)

end ProjectF02.Swift
