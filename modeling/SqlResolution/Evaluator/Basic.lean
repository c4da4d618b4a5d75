import SqlResolution.Evaluator.Kernel
import SqlResolution.Evaluator.Traits
import SqlResolution.Row
import SqlResolution.Schema
import SqlResolution.Value.Adapt
import SqlResolution.Value.Convert

/-!
# Evaluators

A resolved expression is a tree of evaluators. A node carries its own state, such as the rows that
an aggregate has counted, so evaluation answers a tree as well as a value. Here are the nodes and
what they tell about themselves: name, type, traits, kind and arguments.
-/
namespace SqlResolution

/-- Which total a running sum reports. -/
inductive Total where
  | longSum | doubleSum | average
  deriving DecidableEq, Repr

/-- The sums of the values seen so far, without nulls, and their number. -/
structure Sums where
  long : Int64
  double : Float
  count : Nat

def Sums.zero : Sums := ⟨0, 0, 0⟩

/-- What an evaluator made outside the library tells about itself. Its value may depend on the
number of its earlier evaluations and on the row. -/
structure CustomEvaluator where
  name : String
  type : ColumnType
  traits : Traits
  kind : EvaluatorKind
  answer : Nat → Row → Value

inductive Evaluator where
  | constant (type : ColumnType) (value : Value)
  /-- A type name in the place of a value, such as a cast's target. -/
  | typeName (type : ColumnType)
  | column (index : Nat) (type : ColumnType) (label : String)
  /-- A link to a numbered bind variable. Its type is undefined until one is assigned. -/
  | slotLink (slot : Nat) (type : ColumnType)
  /-- A link to a named bind variable. -/
  | namedLink (name : String) (type : ColumnType)
  | adapt (adapter : Adapter) (source target : ColumnType) (arg : Evaluator)
  | scalar (kernel : Kernel) (args : List Evaluator)
  | concat (scales : TextScales) (args : List Evaluator)
  /-- Membership in a list of texts, which may also hold null. -/
  | member (texts : List String) (holdsNull : Bool) (arg : Evaluator)
  | cast (scales : TextScales) (target : ColumnType) (arg : Evaluator)
  /-- Keeps the result for the last row that had an identity. -/
  | memo (cache : Option (Int64 × Value)) (inner : Evaluator)
  /-- A compiled subquery whose records have a schema. -/
  | cursor (schema : Schema)
  | count (rows : Nat)
  | total (which : Total) (sums : Sums) (arg : Evaluator)
  | rowNumber (row : Nat)
  | rank
  | runningAverage (sum : Float) (count : Nat) (arg : Evaluator)
  | randomInt (stream : UInt64)
  | randomDouble (stream : UInt64)
  /-- The start of the execution. -/
  | now (micros : Int64)
  | custom (description : CustomEvaluator) (calls : Nat) (args : List Evaluator)
  deriving Inhabited

def Total.name : Total → String
  | longSum | doubleSum => "sum"
  | average => "avg"

def Total.type : Total → ColumnType
  | longSum => .long
  | doubleSum | average => .double

namespace Evaluator

/-- The null that has no type of its own. -/
def untypedNull : Evaluator := constant .null .null

def nullOf (type : ColumnType) : Evaluator := constant type .null

def ofString (s : String) : Evaluator := constant .string (.str s)

def name : Evaluator → String
  | constant _ _ => "constant"
  | typeName type => type.tag.name
  | column _ _ label => label
  | slotLink slot _ => "$" ++ (slot + 1).repr
  | namedLink name _ => ":" ++ name
  | adapt adapter _ _ _ => adapter.name
  | scalar kernel _ => kernel.name
  | concat _ _ => "concat"
  | member _ _ _ => "in"
  | cast _ _ _ => "cast"
  | memo _ _ => "memoize"
  | cursor _ => "cursor"
  | count _ => "count"
  | total which _ _ => which.name
  | rowNumber _ => "row_number"
  | rank => "rank"
  | runningAverage _ _ _ => "avg"
  | randomInt _ => "rnd_int"
  | randomDouble _ => "rnd_double"
  | now _ => "now"
  | custom description _ _ => description.name

def type : Evaluator → ColumnType
  | constant type _ | typeName type | column _ type _ | slotLink _ type | namedLink _ type => type
  | adapt _ _ target _ => target
  | scalar kernel _ => kernel.resultType
  | concat _ _ => .string
  | member _ _ _ => .boolean
  | cast _ target _ => target
  | memo _ inner => inner.type
  | cursor _ => .cursor
  | count _ | rowNumber _ | rank => .long
  | total which _ _ => which.type
  | runningAverage _ _ _ | randomDouble _ => .double
  | randomInt _ => .int
  | now _ => .timestamp
  | custom description _ _ => description.type

def kind : Evaluator → EvaluatorKind
  | count _ | total _ _ _ => .groupBy
  | rowNumber _ | rank | runningAverage _ _ _ => .window
  | memo _ inner => inner.kind
  | custom description _ _ => description.kind
  | _ => .scalar

mutual

def traits : Evaluator → Traits
  | constant _ _ => { Traits.none with constant := true }
  | typeName _ => { Traits.none with constant := true, typeConstant := true }
  | slotLink _ _ | namedLink _ _ | now _ => { Traits.none with runtimeConstant := true }
  | adapt _ _ _ arg => { arg.traits.determinacy with implicitCast := true }
  | scalar _ args | concat _ args => .inherited (traitsOf args)
  | member _ _ arg | cast _ _ arg => arg.traits.determinacy
  | memo _ inner => { inner.traits with memoize := false }
  | total _ _ arg => { Traits.none with nonDeterministic := arg.traits.nonDeterministic }
  | randomInt _ => { Traits.none with nonDeterministic := true, memoize := true }
  | randomDouble _ => { Traits.none with nonDeterministic := true }
  | custom description _ _ => description.traits
  | _ => .none

/-- The traits of each of a list of evaluators. -/
def traitsOf : List Evaluator → List Traits
  | [] => []
  | e :: es => e.traits :: traitsOf es

end

theorem traitsOf_eq_map (es : List Evaluator) : traitsOf es = es.map traits := by
  induction es with
  | nil => rfl
  | cons e es ih => simp [traitsOf, ih]

/-- The arguments, left to right. -/
def args : Evaluator → List Evaluator
  | scalar _ args | concat _ args | custom _ _ args => args
  | adapt _ _ _ arg | member _ _ arg | cast _ _ arg | total _ _ arg
  | runningAverage _ _ arg => [arg]
  | memo _ inner => [inner]
  | _ => []

/-- The value of an evaluator that is a constant. -/
def constantValue? : Evaluator → Option Value
  | constant _ value => some value
  | _ => none

def isConstant (e : Evaluator) : Bool := e.traits.constant

def isNonDeterministic (e : Evaluator) : Bool := e.traits.nonDeterministic

def isUndefined (e : Evaluator) : Bool := e.type.isUndefined

end Evaluator
end SqlResolution
