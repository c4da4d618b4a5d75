import SqlResolution.Instant.Partial

/-!
# Dates

A date stands alone or with a full time of day. Its number fields may be short and may follow
blanks, and its year may have a sign, after which it may have any number of digits. A sixtieth
second is the one after the minute's last.
-/
namespace SqlResolution.Instant

/-- One to `most` digits, and what follows them. -/
def takeUpTo? (most : Nat) (cs : List Char) : Option (Nat × List Char) :=
  let ds := (cs.take most).takeWhile Char.isDigit
  if ds.isEmpty then none else some (Text.digitsValue 0 ds, cs.drop ds.length)

/-- A field of one or two digits after blanks. -/
def takeField? (cs : List Char) : Option (Nat × List Char) := takeUpTo? 2 (Text.trimStart cs)

/-- A year after blanks: up to four digits, or a sign and any number of digits. -/
def takeYear? (cs : List Char) : Option (Int × List Char) :=
  match Text.trimStart cs with
  | '-' :: cs => (takeUpTo? cs.length cs).map fun (n, cs) => (-(n : Int), cs)
  | '+' :: cs => (takeUpTo? cs.length cs).map fun (n, cs) => ((n : Int), cs)
  | cs => (takeUpTo? 4 cs).map fun (n, cs) => ((n : Int), cs)

/-- The rest of a text that starts with a mark. -/
def takeMark? (mark : Char) : List Char → Option (List Char)
  | c :: cs => if c == mark then some cs else none
  | [] => none

/-- Year, month and day with hyphens between them. -/
def takeDate? (cs : List Char) : Option (CivilDate × List Char) := do
  let (year, cs) ← takeYear? cs
  let (month, cs) ← takeField? (← takeMark? '-' cs)
  let (day, cs) ← takeField? (← takeMark? '-' cs)
  return (⟨year, month, day⟩, cs)

/-- Hour, minute and second with colons between them. -/
def takeTime? (cs : List Char) : Option (ClockTime × List Char) := do
  let (hour, cs) ← takeField? cs
  let (minute, cs) ← takeField? (← takeMark? ':' cs)
  let (second, cs) ← takeField? (← takeMark? ':' cs)
  return (⟨hour, minute, second⟩, cs)

/-- A fraction of a second at the end of a text, in whole milliseconds. -/
def endMillis? : List Char → Option Nat
  | [] => some 0
  | '.' :: cs =>
    if cs.isEmpty || !cs.all Char.isDigit then none
    else some (Text.digitsValue 0 ((cs ++ List.replicate 3 '0').take 3))
  | _ => none

/-- What may stand between a date and a time: the letter `T`, or blanks or nothing. -/
def timeStarts (cs : List Char) : List (List Char) :=
  (takeMark? 'T' cs).toList ++ [Text.trimStart cs]

/-- The time of day in milliseconds, for a text that is a time and nothing else. -/
def readTime? (cs : List Char) : Option Nat := do
  let (time, cs) ← takeTime? cs
  let millis ← endMillis? cs
  if time.hour < 24 && time.minute < 60 && time.second ≤ 60 then
    some (time.seconds * 1000 + millis)
  else none

/-- The milliseconds from the start of 1970 to a date or to a time on it. -/
def parseDate? (s : String) : Option Int64 := do
  let (date, cs) ← takeDate? (withoutZone s)
  let millis ← if cs.isEmpty then some 0 else (timeStarts cs).findSome? readTime?
  if date.isValid then some (Int64.ofInt (dayNumber date * 86400000 + millis)) else none

end SqlResolution.Instant
