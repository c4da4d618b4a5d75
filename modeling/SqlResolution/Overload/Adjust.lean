import SqlResolution.Evaluator.Eval
import SqlResolution.Instant.Date
import SqlResolution.Overload.Catalog

/-!
# Preparing arguments

The arguments of the chosen overload become what its factory expects: a tail of constants is
checked, variables of undefined type are given one, and constant text for a date or a timestamp is
read.
-/
namespace SqlResolution

/-- Gives an argument a type and notes it in the bind table. -/
def assignArgument (args : Args) (i : Nat) (type : ColumnType) : Resolution Args := do
  match args.get? i with
  | none => return args
  | some e =>
    let c ← get
    let (e, b) ← e.assignType c.table type
    set (c.withTable b)
    return args.set i e

/-- The date or timestamp that a constant text writes. -/
def readConstantInstant (target : TypeTag) (position : Span) (v : Value) :
    Except ResolveError Evaluator :=
  match v.asStr? with
  | none => .ok (.nullOf (.of target))
  | some text =>
    let instant :=
      if target == .timestamp then (Instant.parsePartial? text).map .timestamp
      else (Instant.parseDate? text).map Value.date
    match instant with
    | some v => .ok (.constant (.of target) v)
    | none => .error (.invalidDate text position)

/-- Brings an argument into the form that a parameter of a tag expects. A constant DOUBLE that is
null becomes a null of an integer type, text becomes an instant, and UUIDs and intervals become
text. -/
def rewriteArgument (binds : BindTable) (target : TypeTag) (e : Evaluator) (position : Span) :
    Except ResolveError Evaluator :=
  let source := e.type.tag
  if source == .double && e.isConstant then
    let (v, e) := e.evalConstant binds
    if v.isNull && target == .long then .ok (.nullOf .long)
    else if v.isNull && target == .int then .ok (.nullOf .int)
    else .ok e
  else if source.isString && e.isConstant then
    if target.isTemporal then readConstantInstant target position (e.evalConstant binds).1
    else .ok e
  else if target == .string && source == .uuid then .ok (.adapt .uuidToStr e.type .string e)
  else if target == .string && source == .interval then
    .ok (.adapt .intervalToStr e.type .string e)
  else .ok e

/-- The first argument of the tail that is not constant, where the tail asks for constants. -/
def firstVariableInTail? (s : Signature) (args : Args) : Option Nat :=
  if s.tailIsConstant then
    ((List.range args.size).drop s.fixedCount).find? fun i =>
      (args.get? i).any fun e => !e.traits.isConstantOrRuntimeConstant
  else none

namespace Overload

/-- The type that a variable at a place takes: its parameter's, or what the factory prefers in the
tail. -/
def variableType (o : Overload) (name : String) (i : Nat) (args : Args) :
    Except ResolveError ColumnType :=
  match o.signature.parameters[i]? with
  | some p => .ok p.type
  | none =>
    match o.factory.tailType? i args with
    | some type => .ok type
    | none => .error (.unresolvedVariadicType name i (args.position i))

/-- Gives the arguments at some places their types, one after another. -/
def assignTypes (o : Overload) (name : String) : List Nat → Args → Resolution Args
  | [], args => return args
  | i :: is, args => do
    let type ← o.variableType name i args
    o.assignTypes name is (← assignArgument args i type)

/-- Rewrites the arguments of parameters from place `i` on. -/
def rewriteAll (binds : BindTable) : Nat → List Parameter → Args → Except ResolveError Args
  | _, [], args => .ok args
  | i, p :: ps, args =>
    match args.mapAt i (rewriteArgument binds p.tag) with
    | (.ok (), args) => rewriteAll binds (i + 1) ps args
    | (.error e, _) => .error e

/-- Prepares a call's arguments, of which those at the places `undefined` had no type when the
call was scored. -/
def adjust (o : Overload) (name : String) (undefined : List Nat) (args : Args) :
    Resolution Args := do
  match firstVariableInTail? o.signature args with
  | some i => throw (.constantExpected (args.position i))
  | none =>
    let args ← o.assignTypes name undefined args
    rewriteAll (← get).table 0 o.signature.parameters args

end Overload
end SqlResolution
