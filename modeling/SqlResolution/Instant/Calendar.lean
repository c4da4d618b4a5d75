/-!
# The civil calendar

Days are counted from the first of January 1970 in the proleptic Gregorian calendar. `dayNumber`
and `civilDate` go between a count of days and a year, month and day. A civil year here starts in
March, so that the leap day is its last.
-/
namespace SqlResolution.Instant

structure CivilDate where
  year : Int
  month : Nat
  day : Nat
  deriving DecidableEq, Repr

def isLeapYear (year : Int) : Bool := year % 4 == 0 && (year % 100 != 0 || year % 400 == 0)

def daysInMonth (year : Int) (month : Nat) : Nat :=
  match month with
  | 2 => if isLeapYear year then 29 else 28
  | 4 | 6 | 9 | 11 => 30
  | _ => 31

/-- The first and the last year with dates. -/
def firstYear : Int := -262143

def lastYear : Int := 262142

/-- A date of the calendar, in a year that has dates. -/
def CivilDate.isValid (d : CivilDate) : Bool :=
  firstYear ≤ d.year && d.year ≤ lastYear && 1 ≤ d.month && d.month ≤ 12 &&
    1 ≤ d.day && d.day ≤ daysInMonth d.year d.month

/-- Days before a month of a year that starts in March, for the month's number from March. -/
def daysBeforeMonth (fromMarch : Nat) : Nat := (153 * fromMarch + 2) / 5

/-- The days from the first of January 1970 to a date. -/
def dayNumber (d : CivilDate) : Int :=
  let year := if d.month ≤ 2 then d.year - 1 else d.year
  let fromMarch := (d.month + 9) % 12
  365 * year + year.fdiv 4 - year.fdiv 100 + year.fdiv 400 +
    (daysBeforeMonth fromMarch + d.day : Nat) - 719469

/-- The date that many days after the first of January 1970. -/
def civilDate (days : Int) : CivilDate :=
  let shifted := days + 719468
  let era := shifted.fdiv 146097
  let dayOfEra := (shifted - era * 146097).toNat
  let yearOfEra :=
    (dayOfEra - dayOfEra / 1460 + dayOfEra / 36524 - dayOfEra / 146096) / 365
  let dayOfYear := dayOfEra - (365 * yearOfEra + yearOfEra / 4 - yearOfEra / 100)
  let fromMarch := (5 * dayOfYear + 2) / 153
  let month := if fromMarch < 10 then fromMarch + 3 else fromMarch - 9
  ⟨yearOfEra + era * 400 + (if month ≤ 2 then 1 else 0), month,
    dayOfYear - daysBeforeMonth fromMarch + 1⟩

/-- A time of day. -/
structure ClockTime where
  hour : Nat
  minute : Nat
  second : Nat
  deriving DecidableEq, Repr

def ClockTime.isValid (t : ClockTime) : Bool := t.hour < 24 && t.minute < 60 && t.second < 60

def ClockTime.seconds (t : ClockTime) : Nat := (t.hour * 60 + t.minute) * 60 + t.second

/-- The seconds from the start of 1970 to a time on a date. -/
def secondsAt (d : CivilDate) (t : ClockTime) : Int := dayNumber d * 86400 + t.seconds

end SqlResolution.Instant
