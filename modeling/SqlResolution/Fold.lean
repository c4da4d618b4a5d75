import SqlResolution.Context
import SqlResolution.Evaluator.Eval

/-!
# Folding and memoizing

An evaluator that is constant is evaluated once and replaced by its value, and one that asks for it
keeps its result for a row. `finish` is what the resolver does to every evaluator that it builds.
-/
namespace SqlResolution

/-- The types whose values can stand as constants. -/
def TypeTag.isFoldable : TypeTag → Bool
  | boolean | byte | short | char | int | long | date | timestamp | float | double | string
  | varchar | symbol | uuid | ipv4 | long256 | geoByte | geoShort | geoInt | geoLong | null => true
  | _ => false

/-- The types whose values can be kept for a row. -/
def TypeTag.isMemoizable : TypeTag → Bool
  | long | int | timestamp | double | short | boolean | byte | char | date | float | ipv4 | uuid
  | long256 => true
  | _ => false

namespace Evaluator

/-- Whether folding would evaluate it. Constants and type names are left alone, and of arrays only
literals are folded. -/
def isFoldable (e : Evaluator) : Bool :=
  !e.constantValue?.isSome && !e.traits.typeConstant &&
    (e.type.tag.isFoldable || (e.type.tag == .array && e.traits.arrayLiteral))

/-- Replaces an evaluator by its value on the empty row, where the value represents its type. -/
def fold (binds : BindTable) (e : Evaluator) : Evaluator :=
  if e.isFoldable then
    let (v, e) := e.evalConstant binds
    if v.conformsTo e.type then constant e.type v else e
  else e

/-- Keeps the results of an evaluator, where its type allows. -/
def memoized (e : Evaluator) : Evaluator :=
  if e.type.tag.isMemoizable then memo none e else e

/-- Folds a constant evaluator without state of its own, or else memoizes one that asks for it. -/
def finish (settings : Settings) (binds : BindTable) (e : Evaluator) : Evaluator :=
  if settings.foldConstants && e.isConstant && !e.traits.extendedOps then e.fold binds
  else if settings.memoize && e.kind == .scalar && e.traits.memoize then e.memoized
  else e

theorem fold_constant (binds : BindTable) (t : ColumnType) (v : Value) :
    (constant t v).fold binds = constant t v := by simp [fold, isFoldable, constantValue?]

end Evaluator
end SqlResolution
