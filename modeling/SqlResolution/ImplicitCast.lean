import SqlResolution.Fold

/-!
# Implicit casts

Putting an adapter around an evaluator whose type is to become another. Constant text that is to
become a geohash is read at once, and an error says where it cannot be.
-/
namespace SqlResolution

/-- An evaluator, and whether it was converted. One that cannot be is handed back as it was. -/
structure CastOutcome where
  isCast : Bool
  evaluator : Evaluator

/-- The constant geohash that a constant text writes. -/
def readConstantGeohash (span : Span) (target : ColumnType) (v : Value) :
    Except ResolveError Evaluator :=
  match v.asStr? with
  | none => .ok (.nullOf target)
  | some text =>
    match Geohash.ofText? text.toList target.bits with
    | some bits => .ok (.constant target (.geohash bits))
    | none => .error (.invalidGeohash text target.bits span)

/-- Converts an evaluator by an adapter, where there is one for the two types. -/
def implicitCast (binds : BindTable) (span : Span) (e : Evaluator) (target : ColumnType) :
    Except ResolveError CastOutcome :=
  match adapterFor? e.type target with
  | none => .ok ⟨false, e⟩
  | some adapter =>
    if adapter.readsGeohash && e.isConstant then
      (readConstantGeohash span target (e.evalConstant binds).1).map (⟨true, ·⟩)
    else .ok ⟨true, .adapt adapter e.type target e⟩

/-- Converts an evaluator, and folds the adapter around a constant. -/
def foldedImplicitCast (binds : BindTable) (span : Span) (e : Evaluator) (target : ColumnType) :
    Except ResolveError CastOutcome :=
  (implicitCast binds span e target).map fun outcome =>
    if outcome.isCast && outcome.evaluator.isConstant then
      { outcome with evaluator := outcome.evaluator.fold binds }
    else outcome

end SqlResolution
