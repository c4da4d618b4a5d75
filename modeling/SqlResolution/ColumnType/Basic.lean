import SqlResolution.ColumnType.Tag

/-!
# Column types

A column type is a tag with the parameters that some tags need: a geohash has a precision in bits,
an array an element tag and a number of dimensions. `display` is how messages and signatures write
a type.
-/
namespace SqlResolution

/-- The greatest precision of a geohash, in bits. -/
def maxGeohashBits : Nat := 60

structure ColumnType where
  tag : TypeTag
  /-- The precision of a sized geohash, and zero for every other type. -/
  bits : Nat
  /-- What an array holds. -/
  element : TypeTag
  /-- The dimensions of an array. -/
  dims : Nat
  deriving DecidableEq, Repr

namespace ColumnType

/-- The type of a tag without parameters. -/
def of (tag : TypeTag) : ColumnType := ⟨tag, 0, .undefined, 0⟩

instance : Inhabited ColumnType := ⟨of .undefined⟩

/-- A geohash of a precision, stored in the narrowest word that holds it. Precision is clamped,
and no bits at all give the generic geohash. -/
def geohash (bits : Nat) : ColumnType :=
  let bits := min bits maxGeohashBits
  let tag : TypeTag :=
    if bits == 0 then .geoHash
    else if bits ≤ 7 then .geoByte
    else if bits ≤ 15 then .geoShort
    else if bits ≤ 31 then .geoInt
    else .geoLong
  ⟨tag, bits, .undefined, 0⟩

def array (element : TypeTag) (dims : Nat) : ColumnType := ⟨.array, 0, element, dims⟩

abbrev undefined : ColumnType := of .undefined
abbrev boolean : ColumnType := of .boolean
abbrev byte : ColumnType := of .byte
abbrev short : ColumnType := of .short
abbrev char : ColumnType := of .char
abbrev int : ColumnType := of .int
abbrev long : ColumnType := of .long
abbrev date : ColumnType := of .date
abbrev timestamp : ColumnType := of .timestamp
abbrev float : ColumnType := of .float
abbrev double : ColumnType := of .double
abbrev string : ColumnType := of .string
abbrev symbol : ColumnType := of .symbol
abbrev long256 : ColumnType := of .long256
abbrev uuid : ColumnType := of .uuid
abbrev cursor : ColumnType := of .cursor
abbrev varArg : ColumnType := of .varArg
abbrev record : ColumnType := of .record
abbrev varchar : ColumnType := of .varchar
abbrev arrayString : ColumnType := of .arrayString
abbrev null : ColumnType := of .null

def isGeohash (t : ColumnType) : Bool := t.tag.isGeohash

/-- A geohash with a precision of its own. -/
def isSizedGeohash (t : ColumnType) : Bool := t.tag.isGeohash && 0 < t.bits

def isArray (t : ColumnType) : Bool := t.tag == .array

def isUndefined (t : ColumnType) : Bool := t.tag == .undefined

def isNull (t : ColumnType) : Bool := t.tag == .null

/-- How a type is written: a geohash by its characters where its bits make whole ones, an array by
its element and a pair of brackets a dimension. -/
def display (t : ColumnType) : String :=
  if t.isSizedGeohash then
    if t.bits % 5 == 0 then "GEOHASH(" ++ (t.bits / 5).repr ++ "c)"
    else "GEOHASH(" ++ t.bits.repr ++ "b)"
  else if t.isArray then t.element.name ++ String.join (List.replicate t.dims "[]")
  else t.tag.name

@[simp] theorem tag_of (tag : TypeTag) : (of tag).tag = tag := rfl

theorem bits_geohash_le (bits : Nat) : (geohash bits).bits ≤ maxGeohashBits :=
  Nat.min_le_right ..

theorem bits_geohash_of_le {bits : Nat} (h : bits ≤ maxGeohashBits) : (geohash bits).bits = bits :=
  Nat.min_eq_left h

theorem isGeohash_geohash (bits : Nat) : (geohash bits).isGeohash = true := by
  simp only [isGeohash, geohash]
  repeat' split
  all_goals rfl

end ColumnType
end SqlResolution
