import SqlResolution.Text.Ascii

/-!
# Type tags

A tag names the storage kind of a value. Tags are listed in the order of their ordinals, and the
tables here say how a tag is written, which texts name one, and which families it belongs to.
-/
namespace SqlResolution

inductive TypeTag where
  | undefined | boolean | byte | short | char | int | long | date | timestamp | float | double
  | string | symbol | long256 | geoByte | geoShort | geoInt | geoLong | binary | uuid | cursor
  | varArg | record | geoHash | long128 | ipv4 | varchar | arrayString | interval | array
  | regClass | regProcedure | null
  deriving DecidableEq, Repr, Inhabited

namespace TypeTag

/-- Every tag, in the order of the ordinals. -/
def all : List TypeTag :=
  [undefined, boolean, byte, short, char, int, long, date, timestamp, float, double, string,
    symbol, long256, geoByte, geoShort, geoInt, geoLong, binary, uuid, cursor, varArg, record,
    geoHash, long128, ipv4, varchar, arrayString, interval, array, regClass, regProcedure, null]

/-- How a tag is written. The geohash tags share one name. -/
def name : TypeTag → String
  | undefined => "UNDEFINED"
  | boolean => "BOOLEAN"
  | byte => "BYTE"
  | short => "SHORT"
  | char => "CHAR"
  | int => "INT"
  | long => "LONG"
  | date => "DATE"
  | timestamp => "TIMESTAMP"
  | float => "FLOAT"
  | double => "DOUBLE"
  | string => "STRING"
  | symbol => "SYMBOL"
  | long256 => "LONG256"
  | geoByte | geoShort | geoInt | geoLong | geoHash => "GEOHASH"
  | binary => "BINARY"
  | uuid => "UUID"
  | cursor => "CURSOR"
  | varArg => "VARARG"
  | record => "RECORD"
  | long128 => "LONG128"
  | ipv4 => "IPv4"
  | varchar => "VARCHAR"
  | arrayString => "STRING[]"
  | interval => "INTERVAL"
  | array => "ARRAY"
  | regClass => "REGCLASS"
  | regProcedure => "REGPROCEDURE"
  | null => "NULL"

/-- The names that texts may use, in small letters. Sized geohashes and arrays have a grammar of
their own. -/
def names : List (String × TypeTag) :=
  [("boolean", boolean), ("byte", byte), ("short", short), ("char", char), ("int", int),
    ("long", long), ("date", date), ("timestamp", timestamp), ("float", float),
    ("double", double), ("string", string), ("symbol", symbol), ("long256", long256),
    ("binary", binary), ("uuid", uuid), ("cursor", cursor), ("record", record),
    ("geohash", geoHash), ("long128", long128), ("ipv4", ipv4), ("varchar", varchar),
    ("interval", interval), ("regclass", regClass), ("regprocedure", regProcedure),
    ("null", null)]

/-- The tag a name stands for, in any case. -/
def ofName? (s : String) : Option TypeTag := names.lookup (Text.lowerAscii s)

def isGeohash : TypeTag → Bool
  | geoByte | geoShort | geoInt | geoLong | geoHash => true
  | _ => false

/-- The tags that may stand as the target of a cast. -/
def isCastable : TypeTag → Bool
  | boolean | byte | short | char | int | long | date | timestamp | float | double | string
  | symbol | long256 | geoByte | geoShort | geoInt | geoLong | binary | regClass | regProcedure
  | arrayString | uuid | ipv4 | varchar | interval | array => true
  | _ => false

def isNumeric : TypeTag → Bool
  | byte | short | int | long | float | double => true
  | _ => false

/-- Text, with a single character counted in. -/
def isText : TypeTag → Bool
  | string | varchar | symbol | char => true
  | _ => false

/-- The types whose values are strings of any length. -/
def isString : TypeTag → Bool
  | string | varchar | symbol => true
  | _ => false

def isTemporal : TypeTag → Bool
  | date | timestamp => true
  | _ => false

theorem mem_all (t : TypeTag) : t ∈ all := by cases t <;> decide

end TypeTag
end SqlResolution
