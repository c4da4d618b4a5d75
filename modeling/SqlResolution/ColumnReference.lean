import SqlResolution.Error
import SqlResolution.Evaluator.Basic

/-!
# Column references

A name becomes an evaluator that reads its column. A column of type NULL is a null, and columns of
types that no row holds are refused.
-/
namespace SqlResolution

/-- The types of columns that can be read. -/
def TypeTag.isReadable : TypeTag → Bool
  | undefined | cursor | varArg | geoHash | arrayString | regClass | regProcedure | null => false
  | _ => true

/-- The evaluator that reads the column of a name. -/
def Schema.reference (s : Schema) (span : Span) (name : String) :
    Except ResolveError Evaluator :=
  match s.index? name with
  | none => .error (.columnNotFound name span)
  | some i =>
    let type := s.type i
    if type.isNull then .ok .untypedNull
    else if type.tag.isReadable then .ok (.column i type ((s.name? i).getD name))
    else .error (.unsupportedColumnType type span)

end SqlResolution
