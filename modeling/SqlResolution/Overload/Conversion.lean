import SqlResolution.ColumnType.Tag

/-!
# Coercions between types

Each type lists the types that its values may be passed as, the most preferred first, and the cost
of a coercion is its place in that list. A type costs nothing as itself, and NULL costs nothing as
any type. The list of UNDEFINED is the order in which a variable prefers to be given a type.
-/
namespace SqlResolution

/-- The distance between types that cannot be coerced. -/
def noCoercion : Nat := 10000

/-- Why a coercion is allowed. -/
inductive CoercionKind where
  | identity
  | null
  | priority
  deriving DecidableEq, Repr

structure Coercion where
  source : TypeTag
  target : TypeTag
  kind : CoercionKind
  cost : Nat
  deriving DecidableEq, Repr

def Coercion.isIdentity (c : Coercion) : Bool := c.kind == .identity

namespace TypeTag

/-- The types that values of a type may be passed as, the most preferred first. -/
def coercionTargets : TypeTag → List TypeTag
  | undefined =>
    [double, float, string, varchar, long, timestamp, date, int, char, short, byte, boolean]
  | byte => [short, int, long, float, double]
  | short => [int, long, float, double]
  | char => [string, varchar]
  | int => [long, float, double]
  | long => [double, float]
  | date => [timestamp, long]
  | timestamp => [long, date]
  | float => [double]
  | string =>
    [varchar, char, double, long, int, float, short, byte, timestamp, date, symbol, uuid]
  | symbol => [string, varchar, char, double, long, int, float, short, byte, timestamp, date]
  | varchar =>
    [string, char, double, long, int, float, short, byte, timestamp, date, symbol, uuid]
  | geoLong => [geoInt, geoShort, geoByte]
  | geoInt => [geoShort, geoByte]
  | geoShort => [geoByte]
  | uuid => [string, varchar]
  | interval => [string]
  | _ => []

def coercion? (source target : TypeTag) : Option Coercion :=
  if source == target then some ⟨source, target, .identity, 0⟩
  else if source == null then some ⟨source, target, .null, 0⟩
  else (source.coercionTargets.idxOf? target).map fun i => ⟨source, target, .priority, i + 1⟩

/-- The cost of a coercion, which is prohibitive where there is none. -/
def distance (source target : TypeTag) : Nat :=
  ((source.coercion? target).map (·.cost)).getD noCoercion

theorem distance_self (t : TypeTag) : t.distance t = 0 := by simp [distance, coercion?]

theorem distance_null (t : TypeTag) : null.distance t = 0 := by
  cases t <;> rfl

end TypeTag
end SqlResolution
