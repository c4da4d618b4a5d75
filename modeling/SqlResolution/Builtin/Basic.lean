import SqlResolution.Evaluator.Basic
import SqlResolution.Text.Ascii

/-!
# Builtin functions

The functions of the library, each with the signature it is registered under. Most compute a kernel
on their arguments. There is one cast for each pair of types of which the first converts to the
second.
-/
namespace SqlResolution

inductive Builtin where
  | kernel (k : Kernel)
  /-- The length of a VARCHAR. -/
  | varcharLength
  | cast (source target : ColumnType)
  | concat
  | member
  | randomInt
  | randomDouble
  | now
  | count
  | total (which : Total)
  | rowNumber
  | rank
  | runningAverage
  deriving DecidableEq, Repr

def Comparand.type : Comparand → ColumnType
  | int => .int
  | long => .long
  | double => .double
  | char => .char
  | string => .string
  | boolean => .boolean
  | timestamp => .timestamp
  | uuid => .uuid

/-- Whether operands of other types are converted before they are compared. -/
def Comparand.isConverted : Comparand → Bool
  | timestamp | uuid => true
  | _ => false

def Arithmetic.symbol : Arithmetic → String
  | add => "+"
  | sub => "-"
  | mul => "*"
  | div => "/"

namespace Kernel

/-- The name in queries. -/
def symbol : Kernel → String
  | arithmetic op _ => op.symbol
  | negate _ => "-"
  | magnitude _ => "abs"
  | equal _ => "="
  | less _ => "<"
  | conjunction => "and"
  | disjunction => "or"
  | negation => "not"
  | length => "length"
  | upper => "upper"

def operands : Kernel → List ColumnType
  | arithmetic _ kind => [kind.type, kind.type]
  | negate kind | magnitude kind => [kind.type]
  | equal c | less c => [c.type, c.type]
  | conjunction | disjunction => [.boolean, .boolean]
  | negation => [.boolean]
  | length | upper => [.string]

/-- The type that operands are converted to, where the kernel has them converted. -/
def convertsTo? : Kernel → Option ColumnType
  | equal c | less c => if c.isConverted then some c.type else none
  | _ => none

end Kernel

namespace Builtin

/-- The name of a type in a signature. -/
def typeText (t : ColumnType) : String := Text.lowerAscii t.display

def signature : Builtin → String
  | kernel k => k.symbol ++ "(" ++ ", ".intercalate (k.operands.map typeText) ++ ")"
  | varcharLength => "length(varchar)"
  | cast source target => "cast(" ++ typeText source ++ ", " ++ typeText target ++ " const)"
  | concat => "concat(var)"
  | member => "in(string, var const)"
  | randomInt => "rnd_int()"
  | randomDouble => "rnd_double()"
  | now => "now()"
  | count => "count()"
  | total which => which.name ++ "(" ++ typeText (if which == .longSum then .long else .double) ++ ")"
  | rowNumber => "row_number()"
  | rank => "rank()"
  | runningAverage => "avg(double)"

/-- Whether the function runs over a window's frame. -/
def isWindow : Builtin → Bool
  | rowNumber | rank | runningAverage => true
  | _ => false

/-- The type that a variable takes in the tail. -/
def tailType? : Builtin → Option ColumnType
  | concat | member => some .string
  | _ => none

/-- The types between which casts convert. -/
def castTypes : List ColumnType :=
  [.boolean, .byte, .short, .char, .int, .long, .float, .double, .string, .varchar, .symbol,
    .date, .timestamp, .uuid]

/-- The types of numbers that casts convert. -/
def isNumber (t : TypeTag) : Bool := [.byte, .short, .int, .long, .float, .double].contains t

/-- The types of text that casts convert. -/
def isText (t : TypeTag) : Bool := [.string, .varchar, .symbol].contains t

/-- Whether there is a cast. Text converts to every type and every type to text. -/
def converts (source target : TypeTag) : Bool :=
  if source == target || isText source || isText target then true
  else
    match target with
    | .boolean => isNumber source
    | .char => [.byte, .short, .int].contains source
    | .date | .timestamp => source.isTemporal || source == .long
    | .byte | .short | .int | .float | .double =>
      isNumber source || source == .boolean || source == .char
    | .long => isNumber source || source == .boolean || source == .char || source.isTemporal
    | _ => false

def numberKinds : List NumberKind := [.int, .long, .double]

/-- Of equally good overloads the earlier wins, so narrow types come first. -/
def arithmetics : List Builtin :=
  ([Arithmetic.add, .sub, .mul, .div].flatMap fun op =>
      numberKinds.map fun kind => kernel (.arithmetic op kind)) ++
    numberKinds.map (fun kind => kernel (.negate kind)) ++
    numberKinds.map fun kind => kernel (.magnitude kind)

def comparisons : List Builtin :=
  [Comparand.int, .long, .double, .char, .string, .boolean, .timestamp, .uuid].map
      (fun c => kernel (.equal c)) ++
    [Comparand.int, .long, .double, .string, .timestamp, .uuid].map fun c => kernel (.less c)

def connectives : List Builtin := [kernel .conjunction, kernel .disjunction, kernel .negation]

def casts : List Builtin :=
  castTypes.flatMap fun target =>
    (castTypes.filter fun source => converts source.tag target.tag).map (cast · target)

def textFunctions : List Builtin :=
  [kernel .length, varcharLength, kernel .upper, concat, member]

def aggregates : List Builtin :=
  [count, total .longSum, total .doubleSum, total .average]

def windows : List Builtin := [rowNumber, rank, runningAverage]

/-- The builtins in the order in which they are registered. -/
def all : List Builtin :=
  arithmetics ++ comparisons ++ connectives ++ casts ++ textFunctions ++
    [randomInt, randomDouble, now] ++ aggregates ++ windows

end Builtin
end SqlResolution
