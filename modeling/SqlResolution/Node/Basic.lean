import SqlResolution.Span

/-!
# Expression trees

What a parser of queries hands over. A node has a kind, its token and position, and its arguments
in order.
-/
namespace SqlResolution

-- Sums start from the core zero, also where another instance is in scope.
attribute [local instance (high)] Zero.ofOfNat0

inductive NodeKind where
  /-- A column reference. -/
  | column
  /-- A constant token. -/
  | constant
  /-- A token such as `:name` or `$1`. -/
  | bindVariable
  /-- A member name after a point, which stands for its text. -/
  | memberAccess
  /-- A subquery. -/
  | query
  | function
  | operation
  deriving DecidableEq, Repr, Inhabited

structure Node where
  kind : NodeKind
  token : String
  span : Span
  args : List Node
  /-- The text of a subquery. -/
  query : Option String
  deriving Inhabited

namespace Node

mutual

/-- The number of nodes in the tree. -/
def size : Node → Nat
  | ⟨_, _, _, args, _⟩ => 1 + sizes args

/-- The number of nodes in a list of trees. -/
def sizes : List Node → Nat
  | [] => 0
  | n :: ns => n.size + sizes ns

end

theorem size_eq (n : Node) : n.size = 1 + sizes n.args := by cases n; simp [size]

theorem size_pos (n : Node) : 0 < n.size := by rw [size_eq]; omega

/-- The span of a token of so many bytes at an offset. -/
def spanAt (offset : UInt32) (token : String) : Span := ⟨offset, UInt32.ofNat token.utf8ByteSize⟩

end Node
end SqlResolution
