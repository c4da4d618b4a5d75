import SqlResolution.Decimal.Fixed
import SqlResolution.Instant.Calendar

/-!
# How instants are written

Year, month, day and time of day with a fraction of fixed width. A year outside 0000 to 9999 has a
sign, and an instant outside the years that have dates is written as its plain number.
-/
namespace SqlResolution.Instant

-- Powers are the core ones, also where another instance is in scope.
attribute [local instance (high)] instPowNat

/-- A number in at least `width` digits. -/
def padded (width n : Nat) : List Char :=
  let ds := Nat.toDigits 10 n
  List.replicate (width - ds.length) '0' ++ ds

/-- Four digits, with a sign for a year that has more or is before the year 0. -/
def yearText (year : Int) : List Char :=
  if 0 ≤ year && year ≤ 9999 then padded 4 year.toNat
  else (if year < 0 then '-' else '+') :: padded 4 year.natAbs

def dateText (d : CivilDate) : List Char :=
  yearText d.year ++ '-' :: padded 2 d.month ++ '-' :: padded 2 d.day

/-- A time of day given in units of `10 ^ -places` seconds. -/
def timeText (places units : Nat) : List Char :=
  let seconds := units / 10 ^ places
  padded 2 (seconds / 3600) ++ ':' :: padded 2 (seconds / 60 % 60) ++ ':' ::
    padded 2 (seconds % 60) ++ '.' :: padded places (units % 10 ^ places)

/-- An instant given in units of `10 ^ -places` seconds since the start of 1970. -/
def format (places : Nat) (instant : Int64) : String :=
  let perDay : Int := 86400 * 10 ^ places
  let date := civilDate (instant.toInt.fdiv perDay)
  if firstYear ≤ date.year && date.year ≤ lastYear then
    String.ofList
      (dateText date ++ 'T' :: timeText places (instant.toInt.fmod perDay).toNat ++ ['Z'])
  else instant.toInt.repr

/-- Microseconds since the start of 1970. -/
def formatTimestamp (micros : Int64) : String := format 6 micros

/-- Milliseconds since the start of 1970. -/
def formatDate (millis : Int64) : String := format 3 millis

end SqlResolution.Instant
