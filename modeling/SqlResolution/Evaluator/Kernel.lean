import SqlResolution.Text.Upper
import SqlResolution.Value.Basic

/-!
# Kernels

The computation of a stateless function on the values of its arguments. Operations on numbers are
null for a null operand, and integer operations also for a result that their word does not hold and
for division by zero.
-/
namespace SqlResolution

/-- The kinds of number that operators work on. -/
inductive NumberKind where
  | int | long | double
  deriving DecidableEq, Repr

/-- The parameter types of comparisons. -/
inductive Comparand where
  | int | long | double | char | string | boolean | timestamp | uuid
  deriving DecidableEq, Repr

inductive Arithmetic where
  | add | sub | mul | div
  deriving DecidableEq, Repr

inductive Kernel where
  | arithmetic (op : Arithmetic) (kind : NumberKind)
  | negate (kind : NumberKind)
  | magnitude (kind : NumberKind)
  | equal (operands : Comparand)
  | less (operands : Comparand)
  | conjunction
  | disjunction
  | negation
  | length
  | upper
  deriving DecidableEq, Repr

def NumberKind.name : NumberKind → String
  | int => "int"
  | long => "long"
  | double => "double"

def NumberKind.type : NumberKind → ColumnType
  | int => .int
  | long => .long
  | double => .double

def Comparand.name : Comparand → String
  | int => "int"
  | long => "long"
  | double => "double"
  | char => "char"
  | string => "str"
  | boolean => "bool"
  | timestamp => "timestamp"
  | uuid => "uuid"

def Arithmetic.name : Arithmetic → String
  | add => "add"
  | sub => "sub"
  | mul => "mul"
  | div => "div"

/-- The exact result on integers, rounding a quotient toward zero. -/
def Arithmetic.onInt? (op : Arithmetic) (a b : Int) : Option Int :=
  match op with
  | add => some (a + b)
  | sub => some (a - b)
  | mul => some (a * b)
  | div => if b == 0 then none else some (a.tdiv b)

def Arithmetic.onFloat (op : Arithmetic) (a b : Float) : Float :=
  match op with
  | add => a + b
  | sub => a - b
  | mul => a * b
  | div => a / b

namespace Value

/-- An INT, where a 32-bit word holds it. -/
def ofInt32? (n : Int) : Option Value :=
  if Int32.minValue.toInt ≤ n && n ≤ Int32.maxValue.toInt then some (int (Int32.ofInt n)) else none

/-- A LONG, where a 64-bit word holds it. -/
def ofInt64? (n : Int) : Option Value :=
  if Int64.minValue.toInt ≤ n && n ≤ Int64.maxValue.toInt then some (long (Int64.ofInt n)) else none

/-- A value read as an integer that a 32-bit word holds. -/
def asInt32? (v : Value) : Option Int :=
  (v.asInt64?.map Int64.toInt).filter fun n => Int32.minValue.toInt ≤ n && n ≤ Int32.maxValue.toInt

/-- The order of two values of kinds that can be compared. -/
def order? : Value → Value → Option Ordering
  | str a, str b => some (compare a b)
  | uuid a, uuid b => some (compare a.toNat b.toNat)
  | boolean a, boolean b => some (compare a.toNat b.toNat)
  | char a, char b => some (compare a.toNat b.toNat)
  | a, b =>
    let floating := match a, b with
      | double _, _ | float _, _ | _, double _ | _, float _ => true
      | _, _ => false
    if floating then do
      let x ← a.asDouble?
      let y ← b.asDouble?
      if x < y then some .lt else if x == y then some .eq else if y < x then some .gt else none
    else do return compare (← a.asInt64?).toInt (← b.asInt64?).toInt

end Value

namespace Kernel

def name : Kernel → String
  | arithmetic op kind => op.name ++ "_" ++ kind.name
  | negate kind => "neg_" ++ kind.name
  | magnitude kind => "abs_" ++ kind.name
  | equal operands => "eq_" ++ operands.name
  | less operands => "lt_" ++ operands.name
  | conjunction => "and"
  | disjunction => "or"
  | negation => "not"
  | length => "length"
  | upper => "upper"

def resultType : Kernel → ColumnType
  | arithmetic _ kind | negate kind | magnitude kind => kind.type
  | equal _ | less _ | conjunction | disjunction | negation => .boolean
  | length => .int
  | upper => .string

/-- The value of an operation on numbers, of which no operand is null. -/
def onNumbers? (op : Arithmetic) (kind : NumberKind) (a b : Value) : Option Value :=
  match kind with
  | .int => do (← op.onInt? (← a.asInt32?) (← b.asInt32?)) |> Value.ofInt32?
  | .long => do
    (← op.onInt? (← a.asInt64?).toInt (← b.asInt64?).toInt) |> Value.ofInt64?
  | .double => do return .double (op.onFloat (← a.asDouble?) (← b.asDouble?))

/-- An integer function of one number, which must also fit a LONG where it makes an INT. -/
def onInteger? (f : Int → Int) (fit : Int → Option Value) (v : Value) : Option Value := do
  let n := f (← v.asInt64?).toInt
  if Int64.minValue.toInt ≤ n && n ≤ Int64.maxValue.toInt then fit n else none

def onNumber? (f : Int → Int) (g : Float → Float) (kind : NumberKind) (v : Value) :
    Option Value :=
  match kind with
  | .int => onInteger? f Value.ofInt32? v
  | .long => onInteger? f Value.ofInt64? v
  | .double => v.asDouble?.map fun x => .double (g x)

/-- A comparison of two values, of which none is null. -/
def test (holds : Ordering → Bool) (a b : Value) : Value :=
  ((a.order? b).map fun o => .boolean (holds o)).getD .null

/-- The value of the kernel on its arguments. -/
def apply (k : Kernel) (values : List Value) : Value :=
  let a := values.getD 0 .null
  let b := values.getD 1 .null
  let unlessNull (v : Value) : Value := if values.any Value.isNull then .null else v
  match k with
  | arithmetic op kind => unlessNull ((onNumbers? op kind a b).getD .null)
  | negate kind => unlessNull ((onNumber? (- ·) (- ·) kind a).getD .null)
  | magnitude kind =>
    unlessNull ((onNumber? (fun n => n.natAbs) Float.abs kind a).getD .null)
  | equal _ => unlessNull (test (· == .eq) a b)
  | less _ => unlessNull (test (· == .lt) a b)
  | conjunction =>
    match a.asBool?, b.asBool? with
    | some false, _ | _, some false => .boolean false
    | some true, some true => .boolean true
    | _, _ => .null
  | disjunction =>
    match a.asBool?, b.asBool? with
    | some true, _ | _, some true => .boolean true
    | some false, some false => .boolean false
    | _, _ => .null
  | negation => (a.asBool?.map fun x => .boolean !x).getD .null
  | length =>
    .int ((a.asStr?.map fun s =>
      Int32.ofNat (min s.length Int32.maxValue.toNatClampNeg)).getD (-1))
  | upper => (a.asStr?.map fun s => .str (Text.upper s)).getD .null

end Kernel
end SqlResolution
