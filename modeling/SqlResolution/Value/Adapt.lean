import SqlResolution.Geohash
import SqlResolution.Instant.Format
import SqlResolution.Instant.Partial
import SqlResolution.Value.DoubleArray
import SqlResolution.Value.Text

/-!
# Implicit conversion

An adapter converts values of one type to another without a cast being written. `adapterFor?` is
the table of the types between which there is one, and `Adapter.apply` its effect on a value.
-/
namespace SqlResolution

inductive Adapter where
  | strToUuid | strToTimestamp | strToDoubleArray | strToGeohash
  | varcharToUuid | varcharToTimestamp | varcharToGeohash
  | uuidToStr | uuidToVarchar | charToSymbol | geohashToGeohash | intervalToStr
  deriving DecidableEq, Repr

namespace Adapter

def name : Adapter → String
  | strToUuid => "str_to_uuid"
  | strToTimestamp => "str_to_timestamp"
  | strToDoubleArray => "str_to_double_array"
  | strToGeohash => "str_to_geohash"
  | varcharToUuid => "varchar_to_uuid"
  | varcharToTimestamp => "varchar_to_timestamp"
  | varcharToGeohash => "varchar_to_geohash"
  | uuidToStr => "uuid_to_str"
  | uuidToVarchar => "uuid_to_varchar"
  | charToSymbol => "char_to_symbol"
  | geohashToGeohash => "geohash_to_geohash"
  | intervalToStr => "interval_to_str"

/-- The adapters that read a geohash from text. -/
def readsGeohash : Adapter → Bool
  | strToGeohash | varcharToGeohash => true
  | _ => false

/-- An interval of timestamps as text. -/
def intervalText (lo hi : Int64) : String :=
  "('" ++ Instant.formatTimestamp lo ++ "', '" ++ Instant.formatTimestamp hi ++ "')"

/-- The value that stands for another in the target type; null where there is none. -/
def apply (a : Adapter) (source target : ColumnType) (v : Value) : Value :=
  match a, v with
  | strToUuid, .str s | varcharToUuid, .str s => ((Uuid.parse? s).map .uuid).getD .null
  | strToTimestamp, .str s | varcharToTimestamp, .str s =>
    ((Instant.parsePartial? s).map .timestamp).getD .null
  | strToDoubleArray, .str s => (Value.DoubleArray.parse? s target.dims).getD .null
  | strToGeohash, .str s | varcharToGeohash, .str s =>
    ((Geohash.ofText? s.toList target.bits).map .geohash).getD .null
  | uuidToStr, .uuid u | uuidToVarchar, .uuid u => .str (Uuid.text u)
  | charToSymbol, .char c => .str c.toString
  | geohashToGeohash, .geohash bits => .geohash (Geohash.narrow bits source.bits target.bits)
  | intervalToStr, .interval lo hi => .str (intervalText lo hi)
  | _, _ => .null

end Adapter

/-- The adapter between two types. Intervals become text only where a parameter asks for it, so
they are not listed. -/
def adapterFor? (source target : ColumnType) : Option Adapter :=
  match source.tag with
  | .string | .symbol =>
    match target.tag with
    | .uuid => some .strToUuid
    | .timestamp => some .strToTimestamp
    | .array => if target.element == .double then some .strToDoubleArray else none
    | _ => if target.isSizedGeohash then some .strToGeohash else none
  | .varchar =>
    match target.tag with
    | .uuid => some .varcharToUuid
    | .timestamp => some .varcharToTimestamp
    | _ => if target.isSizedGeohash then some .varcharToGeohash else none
  | .uuid =>
    match target.tag with
    | .string => some .uuidToStr
    | .varchar => some .uuidToVarchar
    | _ => none
  | .char => if target.tag == .symbol then some .charToSymbol else none
  | tag =>
    if tag.isGeohash && target.isSizedGeohash && target.bits < source.bits then
      some .geohashToGeohash
    else none

end SqlResolution
