import SqlResolution.BindTable
import SqlResolution.Error
import SqlResolution.Evaluator.Basic

/-!
# Evaluation

`eval` gives the value of an evaluator on a row, and the evaluator as it is afterwards. Constants
are evaluated on the empty row. `accumulate?` feeds a row to an aggregate or window function, and
`assignType` gives a type to a link whose type is still undefined.
-/
namespace SqlResolution

/-- A stream of words in which each word is a function of the one before. -/
def nextWord (stream : UInt64) : UInt64 := stream * 6364136223846793005 + 1442695040888963407

/-- The integer that a word of a stream stands for: its high half. -/
def randomInt32 (stream : UInt64) : Int32 := Int32.ofInt (stream >>> 32).toNat

/-- The number of `[0, 1)` that a word of a stream stands for: its leading 53 bits. -/
def randomUnit (stream : UInt64) : Float :=
  Binary.toDouble (.finite false (stream >>> 11).toNat (-53))

/-- The texts of values after one another; null has none. -/
def concatenation (scales : TextScales) (values : List Value) : String :=
  String.join (values.map fun v => if v.isNull then "" else (v.toText? scales).getD "")

/-- Whether a list of texts holds a value. A value that is not text is looked up as null. -/
def membership (texts : List String) (holdsNull : Bool) : Value → Bool
  | .str s => texts.contains s
  | .char c => texts.contains c.toString
  | _ => holdsNull

/-- The mean of a sum; null over no values at all. -/
def mean (sum : Float) (count : Nat) : Value :=
  if count == 0 then .null else .double (sum / Binary.doubleOfInt count)

/-- What a total reports; null where no value was added. -/
def Sums.report (s : Sums) : Total → Value
  | .longSum => if s.count == 0 then .null else .long s.long
  | .doubleSum => if s.count == 0 then .null else .double s.double
  | .average => mean s.double s.count

/-- Adds a value to the sum that a total keeps. Nulls and values of other kinds are skipped, and
integers wrap around. -/
def Sums.add (which : Total) (v : Value) (s : Sums) : Sums :=
  if v.isNull then s
  else
    match which with
    | .longSum =>
      match v.asInt64? with
      | some n => { s with long := s.long + n, count := s.count + 1 }
      | none => s
    | .doubleSum | .average =>
      match v.asDouble? with
      | some x => { s with double := s.double + x, count := s.count + 1 }
      | none => s

namespace Evaluator

mutual

def eval (binds : BindTable) (row : Row) : Evaluator → Value × Evaluator
  | constant type value => (value, constant type value)
  | typeName type => (.null, typeName type)
  | column index type label => (row.value index, column index type label)
  | slotLink slot type => (binds.slotValue slot, slotLink slot type)
  | namedLink name type => (binds.namedValue name, namedLink name type)
  | adapt adapter source target arg =>
    let (v, arg) := arg.eval binds row
    (if v.isNull then .null else adapter.apply source target v, adapt adapter source target arg)
  | scalar kernel args =>
    let (vs, args) := evalAll binds row args
    (kernel.apply vs, scalar kernel args)
  | concat scales args =>
    let (vs, args) := evalAll binds row args
    (.str (concatenation scales vs), concat scales args)
  | member texts holdsNull arg =>
    let (v, arg) := arg.eval binds row
    (.boolean (membership texts holdsNull v), member texts holdsNull arg)
  | cast scales target arg =>
    let (v, arg) := arg.eval binds row
    (v.cast scales target.tag, cast scales target arg)
  | memo cache inner =>
    match cache.filter fun (id, _) => 0 ≤ row.id && id == row.id with
    | some (_, v) => (v, memo cache inner)
    | none =>
      let (v, inner) := inner.eval binds row
      (v, memo (if 0 ≤ row.id then some (row.id, v) else cache) inner)
  | cursor schema => (.null, cursor schema)
  | count rows => (.long (Int64.ofNat rows), count rows)
  | total which sums arg => (sums.report which, total which sums arg)
  | rowNumber n => (.long (Int64.ofNat n), rowNumber n)
  | rank => (.long 1, rank)
  | runningAverage sum seen arg => (mean sum seen, runningAverage sum seen arg)
  | randomInt stream => (.int (randomInt32 stream), randomInt (nextWord stream))
  | randomDouble stream => (.double (randomUnit stream), randomDouble (nextWord stream))
  | now micros => (.timestamp micros, now micros)
  | custom description calls args =>
    (description.answer calls row, custom description (calls + 1) args)

/-- Evaluates from left to right. -/
def evalAll (binds : BindTable) (row : Row) : List Evaluator → List Value × List Evaluator
  | [] => ([], [])
  | e :: es =>
    let (v, e) := e.eval binds row
    let (vs, es) := evalAll binds row es
    (v :: vs, e :: es)

end

/-- The value on a row. -/
def value (binds : BindTable) (row : Row) (e : Evaluator) : Value := (e.eval binds row).1

/-- The value on the empty row, and the evaluator after it. -/
def evalConstant (binds : BindTable) (e : Evaluator) : Value × Evaluator := e.eval binds .empty

/-- The evaluator after it was fed a row, as the first of a group or frame or as a later one. Only
aggregates and window functions are fed. -/
def accumulate? (binds : BindTable) (first : Bool) (row : Row) : Evaluator → Option Evaluator
  | count rows => some (count (if first then 1 else rows + 1))
  | total which sums arg =>
    let (v, arg) := arg.eval binds row
    some (total which ((if first then .zero else sums).add which v) arg)
  | rowNumber n => some (rowNumber (if first then 1 else n + 1))
  | rank => some rank
  | runningAverage sum seen arg =>
    let (v, arg) := arg.eval binds row
    let (sum, seen) := if first then (0, 0) else (sum, seen)
    match v.asDouble?.filter fun x => !x.isNaN with
    | some x => some (runningAverage (sum + x) (seen + 1) arg)
    | none => some (runningAverage sum seen arg)
  | _ => none

/-- Gives a link a type. A slot keeps the type it has, and a named variable takes the new one.
Answers the link and the table, of which only the variable has changed. -/
def assignType (binds : BindTable) (type : ColumnType) :
    Evaluator → Except ResolveError (Evaluator × BindTable)
  | slotLink slot _ => .ok (slotLink slot (binds.definedType slot type), binds.define slot type)
  | namedLink name _ =>
    .ok (namedLink name type, binds.setNamed name type (binds.namedValue name))
  | memo cache inner => do
    let (inner, binds) ← inner.assignType binds type
    return (memo cache inner, binds)
  | e => .error (.internal (.cannotAssign e.name type))

/-- What giving a type can do: a link takes it, also under results that are kept. -/
inductive Assigned (binds : BindTable) (type : ColumnType) :
    Evaluator → Evaluator → BindTable → Prop
  | slot (slot : Nat) (old : ColumnType) :
      Assigned binds type (slotLink slot old) (slotLink slot (binds.definedType slot type))
        (binds.define slot type)
  | named (name : String) (old : ColumnType) :
      Assigned binds type (namedLink name old) (namedLink name type)
        (binds.setNamed name type (binds.namedValue name))
  | memo (cache : Option (Int64 × Value)) {inner inner' : Evaluator} {binds' : BindTable}
      (assigned : Assigned binds type inner inner' binds') :
      Assigned binds type (memo cache inner) (memo cache inner') binds'

/-- Nothing but a link is given a type. -/
theorem assigned_of_assignType {binds binds' : BindTable} {type : ColumnType} :
    {e e' : Evaluator} → e.assignType binds type = .ok (e', binds') →
      Assigned binds type e e' binds'
  | slotLink slot old, _, h => by
    cases h
    exact .slot slot old
  | namedLink name old, _, h => by
    cases h
    exact .named name old
  | memo cache inner, _, h => by
    simp only [assignType] at h
    rcases hinner : inner.assignType binds type with error | ⟨inner', b⟩
    · rw [hinner] at h
      cases h
    · rw [hinner] at h
      cases h
      exact .memo cache (assigned_of_assignType hinner)
  | constant _ _, _, h | typeName _, _, h | column _ _ _, _, h | adapt _ _ _ _, _, h
  | scalar _ _, _, h | concat _ _, _, h | member _ _ _, _, h | cast _ _ _, _, h | cursor _, _, h
  | count _, _, h | total _ _ _, _, h | rowNumber _, _, h | rank, _, h | runningAverage _ _ _, _, h
  | randomInt _, _, h | randomDouble _, _, h | now _, _, h | custom _ _ _, _, h => by cases h

@[simp] theorem value_constant (binds : BindTable) (row : Row) (t : ColumnType) (v : Value) :
    (constant t v).value binds row = v := by
  simp [value, eval]

end Evaluator
end SqlResolution
