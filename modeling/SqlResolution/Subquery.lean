import SqlResolution.Context
import SqlResolution.Evaluator.Basic
import SqlResolution.Node.Basic

/-!
# Subqueries

What a query node stands for is decided by a compiler outside the library. A compiler answers the
text of a query with a plan: it may ask for expressions of the query to be resolved, look at the
context, and open and close timestamp scopes, before it answers a schema or fails.
-/
namespace SqlResolution

inductive Plan where
  /-- The query is compiled, and its records have a schema. -/
  | finish (schema : Schema)
  | fail (error : ResolveError)
  /-- Resolves an expression against a schema and goes on, also after a failure. -/
  | resolve (node : Node) (schema : Schema) (next : Except ResolveError Evaluator → Plan)
  | pushTimestampRequired (required : Bool) (next : Plan)
  | popTimestampRequired (next : Plan)
  | inspect (next : Context → Plan)

instance : Inhabited Plan := ⟨.finish .empty⟩

/-- Compiles the text of a query. -/
abbrev Compiler := String → Plan

namespace Plan

/-- Resolves expressions one after another up to the first that fails. -/
def ofExpressions (schema : Schema) : List Node → Plan
  | [] => finish schema
  | n :: ns =>
    resolve n schema fun
      | .ok _ => ofExpressions schema ns
      | .error e => fail e

/-- Compiles the queries of a table. -/
def ofTable (queries : List (String × Schema × List Node)) : Compiler := fun text =>
  match queries.lookup text with
  | some (schema, nodes) => ofExpressions schema nodes
  | none => fail (.internal (.reported "no such query"))

end Plan
end SqlResolution
