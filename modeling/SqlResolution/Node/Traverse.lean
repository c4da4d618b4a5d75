import SqlResolution.Node.Basic

/-!
# Visiting a tree

`traverse` visits every node after its arguments, left to right, with a stack of its own, so a
tree may be deep. A node stands on the stack once before its arguments are pushed and once after.
-/
namespace SqlResolution.Node

-- Sums start from the core zero, also where another instance is in scope.
attribute [local instance (high)] Zero.ofOfNat0

/-- A node on the stack, and whether its arguments have been pushed. -/
structure Pending where
  node : Node
  expanded : Bool

namespace Pending

/-- The steps that a pending node still takes. -/
def weight (p : Pending) : Nat := if p.expanded then 1 else 2 * p.node.size

/-- The steps that a stack still takes. -/
def weights (stack : List Pending) : Nat := (stack.map weight).sum

/-- What a node leaves on the stack when its arguments are pushed. -/
def expand (p : Pending) (stack : List Pending) : List Pending :=
  p.node.args.map (⟨·, false⟩) ++ ⟨p.node, true⟩ :: stack

theorem weights_cons (p : Pending) (stack : List Pending) :
    weights (p :: stack) = p.weight + weights stack := by simp [weights]

theorem weights_append (ps stack : List Pending) :
    weights (ps ++ stack) = weights ps + weights stack := by simp [weights]

theorem weights_map (ns : List Node) : weights (ns.map (⟨·, false⟩)) = 2 * Node.sizes ns := by
  induction ns with
  | nil => rfl
  | cons n ns ih =>
    rw [List.map_cons, weights_cons, ih, Node.sizes]
    simp only [weight, Bool.false_eq_true, if_false]
    omega

theorem weights_expand (p : Pending) (stack : List Pending) :
    weights (p.expand stack) + 1 = 2 * p.node.size + weights stack := by
  rw [expand, weights_append, weights_map, weights_cons, Node.size_eq]
  simp only [weight, if_true]
  omega

theorem weight_pos (p : Pending) : 0 < p.weight := by
  have := p.node.size_pos
  unfold weight
  split <;> omega

end Pending

/-- Works a stack off. A visit may fail, and what it changed stays. -/
def traverseStack (visit : Node → ExceptT ε (StateM σ) Unit) :
    List Pending → ExceptT ε (StateM σ) Unit
  | [] => pure ()
  | p :: stack =>
    if p.expanded || p.node.args.isEmpty then do
      visit p.node
      traverseStack visit stack
    else traverseStack visit (p.expand stack)
  termination_by stack => Pending.weights stack
  decreasing_by
  · rw [Pending.weights_cons]
    have := p.weight_pos
    omega
  · rename_i h
    have he : p.expanded = false := by simp_all
    have := Pending.weights_expand p stack
    rw [Pending.weights_cons, Pending.weight, he, if_neg (by simp)]
    omega

/-- Visits every node of a tree after its arguments and stops at the first visit that fails. -/
def traverse (root : Node) (visit : Node → ExceptT ε (StateM σ) Unit) :
    ExceptT ε (StateM σ) Unit :=
  traverseStack visit [⟨root, false⟩]

end SqlResolution.Node
