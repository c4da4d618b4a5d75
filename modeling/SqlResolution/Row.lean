import SqlResolution.Value.Basic

/-!
# Rows

The values that an evaluator reads. A row without an identity has a negative one.
-/
namespace SqlResolution

structure Row where
  id : Int64
  values : List Value
  deriving Inhabited

namespace Row

/-- The row without columns, on which constants are evaluated. -/
def empty : Row := ⟨-1, []⟩

/-- The value of a column, null past the last. -/
def value (r : Row) (i : Nat) : Value := r.values.getD i .null

@[simp] theorem value_empty (i : Nat) : empty.value i = .null := by simp [value, empty]

end Row
end SqlResolution
