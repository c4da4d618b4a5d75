import SqlResolution.Binary.Layout
import SqlResolution.ColumnType.Basic

/-!
# Values

What an evaluator yields for a row. The string types share one kind of value; the evaluator's
column type tells them apart. `conformsTo` says which values may represent a type, and the `as`
functions read a value as a wider kind.
-/
namespace SqlResolution

inductive Value where
  | null
  | boolean (b : Bool)
  | byte (n : Int8)
  | short (n : Int16)
  | char (c : Char)
  | int (n : Int32)
  | long (n : Int64)
  /-- Milliseconds since the start of 1970. -/
  | date (millis : Int64)
  /-- Microseconds since the start of 1970. -/
  | timestamp (micros : Int64)
  | float (x : Float32)
  | double (x : Float)
  | str (s : String)
  | binary (bytes : ByteArray)
  | uuid (u : BitVec 128)
  | ipv4 (address : UInt32)
  | long128 (n : BitVec 128)
  | long256 (n : BitVec 256)
  | interval (lo hi : Int64)
  /-- The bits of a geohash, right aligned. Its precision is part of the column type. -/
  | geohash (bits : Int64)
  /-- A dense array with its values in row-major order. -/
  | array (element : TypeTag) (shape : List UInt32) (values : List Value)
  deriving Inhabited

namespace Value

/-- Null, and the floating-point NaN, which stands for a missing number. -/
def isNull : Value → Bool
  | null => true
  | double x => x.isNaN
  | float x => x.isNaN
  | _ => false

/-- Whether the value may represent the type. Null represents every type. -/
def conformsTo (v : Value) (t : ColumnType) : Bool :=
  match v with
  | null => true
  | boolean _ => t.tag == .boolean
  | byte _ => t.tag == .byte
  | short _ => t.tag == .short
  | char _ => t.tag == .char
  | int _ => t.tag == .int
  | long _ => t.tag == .long
  | date _ => t.tag == .date
  | timestamp _ => t.tag == .timestamp
  | float _ => t.tag == .float
  | double _ => t.tag == .double
  | str _ => t.tag.isString
  | binary _ => t.tag == .binary
  | uuid _ => t.tag == .uuid
  | ipv4 _ => t.tag == .ipv4
  | long128 _ => t.tag == .long128
  | long256 _ => t.tag == .long256
  | interval _ _ => t.tag == .interval
  | geohash _ => t.tag.isGeohash
  | array element _ _ => t.tag == .array && element == t.element

def asBool? : Value → Option Bool
  | boolean b => some b
  | _ => none

/-- Integers, instants and code points as one signed word. -/
def asInt64? : Value → Option Int64
  | byte n => some n.toInt64
  | short n => some n.toInt64
  | int n => some n.toInt64
  | long n | date n | timestamp n => some n
  | char c => some (Int64.ofNat c.toNat)
  | _ => none

/-- Every number as a double. -/
def asDouble? : Value → Option Float
  | float x => some (Binary.widen x)
  | double x => some x
  | v => v.asInt64?.map fun n => Binary.doubleOfInt n.toInt

def asStr? : Value → Option String
  | str s => some s
  | _ => none

def asChar? : Value → Option Char
  | char c => some c
  | _ => none

/-- An array of one dimension. -/
def vector (element : TypeTag) (values : List Value) : Value :=
  array element [UInt32.ofNat values.length] values

/-- The number of values that a shape asks for, as a 64-bit word. -/
def volume (shape : List UInt32) : UInt64 := (shape.map UInt32.toUInt64).foldl (· * ·) 1

/-- An array of a shape, unless the shape asks for another number of values. -/
def withShape? (element : TypeTag) (shape : List UInt32) (values : List Value) : Option Value :=
  if volume shape == UInt64.ofNat values.length then some (array element shape values) else none

/-- The type of an array, whose number of dimensions is a byte; no other value has one. -/
def arrayType? : Value → Option ColumnType
  | array element shape _ => some (.array element (shape.length % 256))
  | _ => none

theorem conformsTo_array_iff (e : TypeTag) (shape : List UInt32) (vs : List Value)
    (t : ColumnType) : conformsTo (array e shape vs) t = true ↔ t.tag = .array ∧ e = t.element := by
  simp [conformsTo]

end Value
end SqlResolution
