import SqlResolution.Args
import SqlResolution.Subquery

/-!
# The state of a walk

A walk over an expression tree keeps the evaluators that no call has taken yet on a stack, with
their positions on a second one, and the schema that columns are read from. A walk for a subquery
starts in the middle of another and leaves the entries of that one alone. All stacks have their top
in front.
-/
namespace SqlResolution

/-- What was done for subqueries. -/
inductive JournalEntry where
  /-- A query was handed to its compiler. -/
  | compiled (text : String) (timestampRequired : Bool)
  /-- An expression of a query was resolved. -/
  | resolved (evaluator : Evaluator)

structure Walk where
  evaluators : List Evaluator
  positions : List Span
  /-- The schema of the walk in progress. -/
  schema : Option Schema
  /-- The schemas of the walks around it, innermost first. -/
  enclosing : List (Option Schema)
  context : Context
  /-- Oldest entry first. -/
  journal : List JournalEntry

/-- A step of a walk. The state after a failure is the one that it left. -/
abbrev Walking := ExceptT ResolveError (StateM Walk)

namespace Walk

/-- No walk in progress. -/
def idle (c : Context) : Walk := ⟨[], [], none, [], c, []⟩

/-- Starts a walk against a schema inside this one. -/
def enter (w : Walk) (schema : Schema) : Walk :=
  { w with schema := some schema, enclosing := w.schema :: w.enclosing }

/-- Goes back to the schema of the walk around this one. -/
def leave (w : Walk) : Walk :=
  { w with schema := w.enclosing.headD none, enclosing := w.enclosing.tail }

/-- Drops what was pushed since the stacks had as many entries as in `start`. -/
def truncate (w start : Walk) : Walk :=
  { w with
    evaluators := w.evaluators.drop (w.evaluators.length - start.evaluators.length)
    positions := w.positions.drop (w.positions.length - start.positions.length) }

def push (w : Walk) (e : Evaluator) (position : Span) : Walk :=
  { w with evaluators := e :: w.evaluators, positions := position :: w.positions }

def drop (w : Walk) (count : Nat) : Walk :=
  { w with evaluators := w.evaluators.drop count, positions := w.positions.drop count }

/-- The top entries in the order in which they were pushed. -/
def top (w : Walk) (count : Nat) : Args :=
  ⟨(w.evaluators.take count).reverse, (w.positions.take count).reverse⟩

/-- The position of the last aggregate among the top entries. -/
def aggregate? (w : Walk) (count : Nat) : Option Span :=
  (((w.evaluators.take count).zip w.positions).find? fun (e, _) => e.kind == .groupBy).map (·.2)

def note (w : Walk) (entry : JournalEntry) : Walk := { w with journal := w.journal ++ [entry] }

@[simp] theorem leave_enter (w : Walk) (schema : Schema) : (w.enter schema).leave = w := rfl

@[simp] theorem truncate_self (w : Walk) : w.truncate w = w := by simp [truncate]

@[simp] theorem drop_push (w : Walk) (e : Evaluator) (position : Span) :
    (w.push e position).drop 1 = w := rfl

end Walk

namespace Walking

/-- A step that needs the context alone. -/
def ofResolution (step : Resolution α) : Walking α := fun w =>
  let (result, context) := step w.context
  (result, { w with context })

/-- The result of a step, which may be an error. -/
def capture (step : Walking α) : Walking (Except ResolveError α) := fun w =>
  let (result, w) := step w
  (.ok result, w)

end Walking
end SqlResolution
