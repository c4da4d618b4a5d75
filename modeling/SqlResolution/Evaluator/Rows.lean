import SqlResolution.Evaluator.Eval

/-!
# Evaluation over rows

Evaluating row after row, and feeding the rows of a group or frame to an aggregate or window
function. An evaluator carries its state from each row to the next.
-/
namespace SqlResolution.Evaluator

/-- The values on rows one after another, and the evaluator after the last. -/
def evalRows (binds : BindTable) : List Row → Evaluator → List Value × Evaluator
  | [], e => ([], e)
  | row :: rows, e =>
    let (v, e) := e.eval binds row
    let (vs, e) := e.evalRows binds rows
    (v :: vs, e)

/-- Feeds rows one after another, where `first` tells whether the first of them starts a group.
Answers the value after each row, and the evaluator after the last. -/
def feed? (binds : BindTable) (first : Bool) :
    List Row → Evaluator → Option (List Value × Evaluator)
  | [], e => some ([], e)
  | row :: rows, e => do
    let (v, e) := (← e.accumulate? binds first row).eval binds row
    let (vs, e) ← e.feed? binds false rows
    return (v :: vs, e)

/-- Whether rows can be fed. -/
def accumulates (e : Evaluator) : Bool :=
  match e with
  | count _ | total _ _ _ | rowNumber _ | rank | runningAverage _ _ _ => true
  | _ => false

theorem isSome_accumulate? (binds : BindTable) (first : Bool) (row : Row) (e : Evaluator) :
    (e.accumulate? binds first row).isSome = e.accumulates := by
  cases e <;> simp only [accumulate?, accumulates, Option.isSome_some, Option.isSome_none]
  split <;> split <;> rfl

@[simp] theorem length_evalRows (binds : BindTable) (rows : List Row) (e : Evaluator) :
    (e.evalRows binds rows).1.length = rows.length := by
  induction rows generalizing e with
  | nil => rfl
  | cons row rows ih => simp [evalRows, ih]

end SqlResolution.Evaluator
