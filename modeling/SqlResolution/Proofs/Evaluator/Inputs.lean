import SqlResolution.Evaluator.Rows

/-!
# Evaluation on inputs

An evaluation reads a bind table and a row, and the next one may read others. An evaluator with a
state is still a function of the row on a class of inputs, if evaluating it on any of them in turn
yields what the function does.
-/
namespace SqlResolution

/-- What one evaluation reads. -/
structure Input where
  table : BindTable
  row : Row

namespace Evaluator

variable {P : Input → Prop} {f : Row → Value} {e : Evaluator}

/-- The value on an input. -/
def valueOn (e : Evaluator) (input : Input) : Value := e.value input.table input.row

/-- The evaluator after it was evaluated on inputs in turn. -/
def after (e : Evaluator) (inputs : List Input) : Evaluator :=
  inputs.foldl (fun e input => (e.eval input.table input.row).2) e

/-- The values on inputs in turn. -/
def valuesOn (e : Evaluator) : List Input → List Value
  | [] => []
  | input :: inputs => e.valueOn input :: (e.after [input]).valuesOn inputs

theorem after_append (e : Evaluator) (inputs rest : List Input) :
    e.after (inputs ++ rest) = (e.after inputs).after rest := by
  simp [after]

theorem after_cons (e : Evaluator) (input : Input) (inputs : List Input) :
    e.after (input :: inputs) = (e.after [input]).after inputs := rfl

theorem valuesOn_append (e : Evaluator) (inputs rest : List Input) :
    e.valuesOn (inputs ++ rest) = e.valuesOn inputs ++ (e.after inputs).valuesOn rest := by
  induction inputs generalizing e with
  | nil => rfl
  | cons input inputs ih => simp [valuesOn, ih, after_cons e input inputs]

/-- Evaluation on rows is evaluation on inputs with one table. -/
theorem evalRows_eq (b : BindTable) (rows : List Row) (e : Evaluator) :
    e.evalRows b rows = (e.valuesOn (rows.map (Input.mk b)), e.after (rows.map (Input.mk b))) := by
  induction rows generalizing e with
  | nil => rfl
  | cons row rows ih =>
    have hrest := ih (e.eval b row).2
    simp only [evalRows, hrest]
    rfl

/-- On any inputs of a class in turn, the values are a function of the rows. -/
def IsFunctionOn (P : Input → Prop) (f : Row → Value) (e : Evaluator) : Prop :=
  ∀ inputs : List Input, (∀ input ∈ inputs, P input) →
    e.valuesOn inputs = inputs.map fun input => f input.row

namespace IsFunctionOn

variable {input : Input} {inputs : List Input}

theorem valueOn (h : e.IsFunctionOn P f) (hinput : P input) : e.valueOn input = f input.row := by
  have hvalues := h [input] (by simpa using hinput)
  simpa [valuesOn] using hvalues

theorem after (h : e.IsFunctionOn P f) (hinputs : ∀ input ∈ inputs, P input) :
    (e.after inputs).IsFunctionOn P f := by
  intro rest hrest
  have hall := h (inputs ++ rest) (by simpa [or_imp, forall_and] using ⟨hinputs, hrest⟩)
  rw [valuesOn_append, h inputs hinputs, List.map_append] at hall
  exact List.append_cancel_left hall

/-- An evaluator without a state needs to be evaluated once only. -/
theorem of_eval (h : ∀ input, P input → e.eval input.table input.row = (f input.row, e)) :
    e.IsFunctionOn P f := by
  intro inputs hinputs
  induction inputs with
  | nil => rfl
  | cons input inputs ih =>
    obtain ⟨hinput, hrest⟩ := List.forall_mem_cons.mp hinputs
    have heval := h input hinput
    have hafter : e.after [input] = e := congrArg Prod.snd heval
    rw [valuesOn, hafter, ih hrest, List.map_cons, Evaluator.valueOn, value, heval]

end IsFunctionOn

/-- A column is a function of the row whatever the table is. -/
theorem isFunctionOn_column (index : Nat) (type : ColumnType) (label : String) :
    (column index type label).IsFunctionOn P fun row => row.value index :=
  .of_eval fun _ _ => by simp only [eval]

end Evaluator
end SqlResolution
