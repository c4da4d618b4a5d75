import SqlResolution.Fold
import SqlResolution.Overload.Adjust
import SqlResolution.Overload.Diagnosis
import SqlResolution.Overload.Ranking

/-!
# Resolving a call

A call by name becomes an evaluator. A cast to the type that its operand already has is the
operand. A call without arguments takes the first overload without parameters that suits the window
context. Any other call takes the overload that the ranking chooses.
-/
namespace SqlResolution

/-- The type that a variable is given when it is cast: text for text, a double for every number,
and the type itself for arrays. Other targets give it none. -/
def castVariableType? (target : ColumnType) : Option ColumnType :=
  match target.tag with
  | .varchar | .string | .char => some .string
  | .byte | .short | .int | .long | .float | .double => some .double
  | .array => some target
  | _ => none

/-- Whether a cast is its own operand, which may be a variable that is now given its type. -/
def elideCast (args : Args) : Resolution (Bool × Args) := do
  match args.get? 0, args.get? 1 with
  | some operand, some target =>
    if operand.type == target.type then return (true, args)
    else if operand.isUndefined then
      match castVariableType? target.type with
      | none => return (false, args)
      | some type => return (type == target.type, ← assignArgument args 0 type)
    else return (false, args)
  | _, _ => return (false, args)

/-- A call of `cast` with a target that is a constant. -/
def isCastCall (name : String) (args : Args) : Bool :=
  Text.eqIgnoringCase name "cast" && args.size == 2 && (args.get? 1).any (·.isConstant)

/-- The places of the arguments without a type. -/
def undefinedPlaces (args : Args) : List Nat :=
  (List.range args.size).filter fun i => (args.get? i).any (·.isUndefined)

namespace Overload

/-- Builds an evaluator by the factory, checks that it may be used, and folds or memoizes it. -/
def create (o : Overload) (settings : Settings) (name : String) (span : Span) (args : Args) :
    Resolution Evaluator := do
  let c ← get
  match ← o.factory.build span args settings c with
  | none => throw (.badFactory o.factory.signature span)
  | some e =>
    if !c.allowNonDeterministic && e.isNonDeterministic then
      throw (.nonDeterministicNotAllowed name span)
    else return e.finish settings c.table

/-- Whether an overload answers a call without arguments. The only overload of a name does so
outside its window context too. -/
def answersEmptyCall (isOnly inWindow : Bool) (o : Overload) : Bool :=
  o.signature.fixedCount == 0 && (o.isWindow == inWindow || isOnly)

end Overload

namespace Catalog

/-- Resolves a call without arguments. -/
def resolveEmpty (c : Catalog) (settings : Settings) (overloads : List Overload)
    (name : String) (span : Span) : Resolution Evaluator := do
  let inWindow := (← get).inWindow
  match overloads.find? (Overload.answersEmptyCall (overloads.length == 1) inWindow) with
  | some o => o.create settings name span .empty
  | none => throw (noMatchingOverload c overloads name span .empty)

/-- Resolves a call with arguments by ranking the overloads. -/
def resolveRanked (c : Catalog) (settings : Settings) (overloads : List Overload)
    (name : String) (span : Span) (isCast : Bool) (args : Args) : Resolution Evaluator := do
  let context ← get
  let undefined := undefinedPlaces args
  let (tracker, args) := scan context.table isCast context.inWindow 0 overloads .start args
  match tracker.winner.bind (overloads[·]?) with
  | none => throw (noMatchingOverload c overloads name span args)
  | some o => o.create settings name span (← o.adjust name undefined args)

/-- Resolves a call of a name with evaluated arguments. -/
def resolve (c : Catalog) (settings : Settings) (name : String) (span : Span) (args : Args) :
    Resolution Evaluator := do
  match c.overloads? name with
  | none => throw (unknownFunction name span args)
  | some overloads =>
    let isCast := isCastCall name args
    let (isElided, args) ← if isCast then elideCast args else pure (false, args)
    if isElided then
      match args.evaluators with
      | operand :: _ => return operand
      | [] => throw (.internal .castLostOperand)
    else if args.isEmpty then c.resolveEmpty settings overloads name span
    else c.resolveRanked settings overloads name span isCast args

end Catalog
end SqlResolution
