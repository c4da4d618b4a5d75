import SqlResolution.Instant.Calendar
import SqlResolution.Text.Blank
import SqlResolution.Text.Cut
import SqlResolution.Text.Integer

/-!
# Partial timestamps

A timestamp may stop after any of its fields. The fields that are left out take their least value,
so the result is the first instant of the stretch of time that the text names.
-/
namespace SqlResolution.Instant

/-- Exactly `count` ASCII digits, and what follows them. -/
def takeDigits? (count : Nat) (cs : List Char) : Option (Nat × List Char) :=
  let ds := cs.take count
  if ds.length == count && ds.all Char.isDigit then
    some (Text.digitsValue 0 ds, cs.drop count)
  else none

/-- Reads two-digit fields, each after one of its marks, and stops at the first mark that is
missing. -/
def takeFields? : List (List Char) → List Char → Option (List Nat × List Char)
  | marks :: later, c :: cs =>
    if marks.contains c then do
      let (field, cs) ← takeDigits? 2 cs
      let (fields, cs) ← takeFields? later cs
      return (field :: fields, cs)
    else some ([], c :: cs)
  | _, cs => some ([], cs)

/-- The marks before month, day, hour, minute and second. -/
def fieldMarks : List (List Char) := [['-'], ['-'], ['T', ' '], [':'], [':']]

/-- One to nine digits of a fraction of a second, cut to microseconds. -/
def fractionMicros? (cs : List Char) : Option Nat :=
  if cs.isEmpty || 9 < cs.length || !cs.all Char.isDigit then none
  else some (Text.digitsValue 0 ((cs ++ List.replicate 6 '0').take 6))

/-- The fraction at the end of a text: none at all, or a point and digits after a full time. -/
def endMicros? (fields : List Nat) : List Char → Option Nat
  | [] => some 0
  | '.' :: cs => if fields.length == fieldMarks.length then fractionMicros? cs else none
  | _ => none

/-- A text without the blanks around it and without one `Z` at its end. -/
def withoutZone (s : String) : List Char :=
  let cs := Text.trim s.toList
  (Text.dropEnding? ['Z'] cs).getD cs

/-- The microseconds from the start of 1970 to the first instant that a partial timestamp names. -/
def parsePartial? (s : String) : Option Int64 := do
  let (year, cs) ← takeDigits? 4 (withoutZone s)
  let (fields, cs) ← takeFields? fieldMarks cs
  let micros ← endMicros? fields cs
  let date : CivilDate := ⟨year, fields.getD 0 1, fields.getD 1 1⟩
  let time : ClockTime := ⟨fields.getD 2 0, fields.getD 3 0, fields.getD 4 0⟩
  if date.isValid && time.isValid then
    some (Int64.ofInt (secondsAt date time * 1000000 + micros))
  else none

end SqlResolution.Instant
