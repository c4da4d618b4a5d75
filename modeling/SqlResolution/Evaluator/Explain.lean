import SqlResolution.Evaluator.Basic
import SqlResolution.Value.Text

/-!
# How evaluators are written

`explain` writes a tree as nested calls, and `nodes` lists a tree from its root, each node before
its arguments.
-/
namespace SqlResolution

/-- A constant in the form of a literal: text has quotes around it. -/
def Value.literalText : Value → String
  | str s => "'" ++ s ++ "'"
  | char c => "'" ++ c.toString ++ "'"
  | v => v.text

namespace Evaluator

/-- A name with its arguments, of which a function without any has no brackets. -/
def callText (name : String) (args : List String) : String :=
  if args.isEmpty then name else name ++ "(" ++ ", ".intercalate args ++ ")"

mutual

def explain : Evaluator → String
  | constant _ value => value.literalText
  | adapt adapter _ _ arg => callText adapter.name [arg.explain]
  | scalar kernel args => callText kernel.name (explainAll args)
  | concat _ args => callText "concat" (explainAll args)
  | member _ _ arg => callText "in" [arg.explain]
  | cast _ _ arg => callText "cast" [arg.explain]
  | memo _ inner => callText "memoize" [inner.explain]
  | total which _ arg => callText which.name [arg.explain]
  | runningAverage _ _ arg => callText "avg" [arg.explain]
  | custom description _ args => callText description.name (explainAll args)
  | e => e.name

def explainAll : List Evaluator → List String
  | [] => []
  | e :: es => e.explain :: explainAll es

end

mutual

/-- The evaluators of a tree, root first and arguments from left to right. -/
def nodes : Evaluator → List Evaluator
  | adapt adapter source target arg => adapt adapter source target arg :: arg.nodes
  | scalar kernel args => scalar kernel args :: nodesOf args
  | concat scales args => concat scales args :: nodesOf args
  | member texts holdsNull arg => member texts holdsNull arg :: arg.nodes
  | cast scales target arg => cast scales target arg :: arg.nodes
  | memo cache inner => memo cache inner :: inner.nodes
  | total which sums arg => total which sums arg :: arg.nodes
  | runningAverage sum seen arg => runningAverage sum seen arg :: arg.nodes
  | custom description calls args => custom description calls args :: nodesOf args
  | e => [e]

def nodesOf : List Evaluator → List Evaluator
  | [] => []
  | e :: es => e.nodes ++ nodesOf es

end

theorem nodesOf_eq_flatMap (es : List Evaluator) : nodesOf es = es.flatMap nodes := by
  induction es with
  | nil => rfl
  | cons e es ih => simp [nodesOf, ih]

end Evaluator
end SqlResolution
