import SqlResolution.ColumnReference
import SqlResolution.Link
import SqlResolution.Literal
import SqlResolution.Node.Traverse
import SqlResolution.Overload.Resolve
import SqlResolution.Walk.Basic

/-!
# Resolving an expression tree

A walk visits each node after its arguments. The visit takes the arguments off the stacks, makes an
evaluator of the node, and puts it there in their place, so the whole tree leaves one evaluator. A
walk that fails leaves the stacks as it found them.
-/
namespace SqlResolution

structure Resolver where
  catalog : Catalog
  settings : Settings
  /-- The compilers of subqueries by their nesting, outermost first. -/
  compilers : List Compiler

namespace Resolver

/-- Takes the arguments of a call off the stacks. None of them may be an aggregate. -/
def popArgs (count : Nat) : Walking Args := do
  let w ← get
  if w.evaluators.length < count then throw (.internal .evaluatorsExhausted)
  else if w.positions.length < count then throw (.internal .positionsExhausted)
  else
    set (w.drop count)
    match w.aggregate? count with
    | some position => throw (.aggregateAsArgument position)
    | none => return w.top count

/-- Resolves a call of a node's token. -/
def call (r : Resolver) (n : Node) (args : Args) : Walking Evaluator :=
  .ofResolution (r.catalog.resolve r.settings n.token n.span args)

/-- Resolves a node without arguments. -/
def leaf (r : Resolver) (query : Node → Walking Evaluator) (n : Node) : Walking Evaluator := do
  let w ← get
  match n.kind with
  | .column =>
    match w.schema with
    | some schema => liftExcept (schema.reference n.span n.token)
    | none => throw (.internal .noSchema)
  | .bindVariable => liftExcept (Link.ofNode w.context n.span n.token)
  | .memberAccess => return .ofString n.token
  | .constant => liftExcept (Literal.parse n.span n.token)
  | .query => query n
  | .function | .operation => r.call n .empty

/-- Replaces a node's arguments on the stacks by its evaluator. -/
def visit (r : Resolver) (query : Node → Walking Evaluator) (n : Node) : Walking Unit := do
  let e ← if n.args.isEmpty then r.leaf query n else do r.call n (← popArgs n.args.length)
  modify (·.push e n.span)

/-- Takes the evaluator of a whole tree off the stacks. -/
def popResult : Walking Evaluator := do
  let w ← get
  set (w.drop 1)
  match w.evaluators with
  | e :: _ => return e
  | [] => throw (.internal .noResult)

/-- Walks a tree against a schema, with a way to resolve its query nodes. -/
def walk (r : Resolver) (query : Node → Walking Evaluator) (root : Node) (schema : Schema) :
    Walking Evaluator := do
  let start ← get
  set (start.enter schema)
  let walked ← Walking.capture (root.traverse (r.visit query))
  modify (·.leave)
  match walked with
  | .ok () => popResult
  | .error e => do
    modify (·.truncate start)
    throw e

/-- Follows the plan of a query, with a way to resolve the expressions in it. -/
def follow (resolve : Node → Schema → Walking Evaluator) : Plan → Walking Schema
  | .finish schema => return schema
  | .fail e => throw e
  | .resolve n schema next => do
    let result ← Walking.capture (resolve n schema)
    if let .ok e := result then modify (·.note (.resolved e))
    follow resolve (next result)
  | .pushTimestampRequired required next => do
    modify fun w => { w with context := w.context.pushTimestampRequired required }
    follow resolve next
  | .popTimestampRequired next => do
    modify fun w => { w with context := w.context.popTimestampRequired }
    follow resolve next
  | .inspect next => do follow resolve (next (← get).context)

/-- Compiles a query by a plan in a scope of its own, where no timestamp is required. -/
def compile (resolve : Node → Schema → Walking Evaluator) (compiler : Compiler) (text : String) :
    Walking Evaluator := do
  modify fun w => { w with context := w.context.pushTimestampRequired false }
  modify fun w => w.note (.compiled text w.context.timestampRequired)
  let schema ← Walking.capture (follow resolve (compiler text))
  modify fun w => { w with context := w.context.popTimestampRequired }
  return .cursor (← liftExcept schema)

/-- Resolves a query node by the first of the compilers. The queries inside it have the others. -/
def query (r : Resolver) : List Compiler → Node → Walking Evaluator
  | [], _ => throw (.internal .noCompiler)
  | compiler :: inner, n =>
    match n.query with
    | none => throw (.internal .noQueryModel)
    | some text => compile (r.walk (r.query inner)) compiler text

/-- Resolves an expression tree against the schema of its rows. -/
def resolve (r : Resolver) (root : Node) (schema : Schema) : Walking Evaluator :=
  r.walk (r.query r.compilers) root schema

end Resolver
end SqlResolution
