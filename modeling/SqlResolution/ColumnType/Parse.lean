import SqlResolution.ColumnType.Basic
import SqlResolution.Text.Blank
import SqlResolution.Text.Integer
import SqlResolution.Text.Slice

/-!
# Type names

A type name is a word, `geohash(5c)` or `geohash(12b)`, or one of these followed by pairs of
brackets. A precision is cut one byte before the end of its text, which a text whose last character
is longer than a byte cannot be.
-/
namespace SqlResolution

/-- The bits of a unit of precision: a five-bit character (`c`) or a bit (`b`). -/
def unitBits? : List Char → Option Nat
  | ['c'] | ['C'] => some 5
  | ['b'] | ['B'] => some 1
  | _ => none

/-- The bits of so many units, where a geohash can have as many. -/
def precision? (digits unit : List Char) : Option Nat := do
  let count ← Text.readNatUpTo? 255 digits
  let size ← unitBits? unit
  if 1 ≤ count * size && count * size ≤ maxGeohashBits then some (count * size) else none

/-- Reads a precision such as `5c` or `12b`. -/
def readPrecision (cs : List Char) : Except CutInsideCharacter (Option Nat) :=
  if cs.isEmpty then .ok none
  else
    (Text.cutAt (Text.byteLength cs - 1) cs).map fun (digits, unit) => precision? digits unit

/-- Takes pairs of brackets, with blanks before them, off a text that is given back to front.
Answers their number and the rest, also back to front. -/
def peelDimensions : List Char → Nat × List Char
  | ']' :: '[' :: rest => let (n, base) := peelDimensions rest; (n + 1, base)
  | c :: cs => if Text.isBlank c then peelDimensions cs else (0, c :: cs)
  | [] => (0, [])

namespace ColumnType

/-- The type that a name without brackets stands for. -/
def ofBaseName (name : List Char) : Except CutInsideCharacter (Option ColumnType) :=
  match Text.dropOpening? "geohash(".toList name with
  | some rest =>
    match Text.dropEnding? [')'] rest with
    | some precision => (readPrecision precision).map (·.map geohash)
    | none => .ok none
  | none => .ok ((TypeTag.ofName? (String.ofList name)).map of)

/-- An array of a base type. Only numbers and booleans have arrays. -/
def withDims? (base : ColumnType) (dims : Nat) : Option ColumnType :=
  if dims == 0 then some base
  else if base.tag.isNumeric || base.tag == .boolean then some (array base.tag dims)
  else none

/-- The type of a base, in small letters, with dimensions. `string[]` and `text[]` name the string
array, and no array has more than 255 dimensions. -/
def ofParts (dims : Nat) (base : List Char) : Except CutInsideCharacter (Option ColumnType) :=
  if 255 < dims then .ok none
  else if dims == 1 && (base == "string".toList || base == "text".toList) then .ok arrayString
  else (ofBaseName base).map (·.bind (·.withDims? dims))

/-- Reads a type name in any case. -/
def parse (name : String) : Except CutInsideCharacter (Option ColumnType) :=
  let (dims, reversed) := peelDimensions (Text.trim name.toList).reverse
  ofParts dims (reversed.reverse.map Char.toLower)

end ColumnType
end SqlResolution
