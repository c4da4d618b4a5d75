import SqlResolution.Node.Traverse

/-!
# The order of visits

`postorder` lists the nodes of a tree, each after its arguments. A traversal visits them in this
order, so it is a loop over the list.
-/
namespace SqlResolution.Node

mutual

/-- The nodes of a tree, each after its arguments, left to right. -/
def postorder : Node → List Node
  | ⟨kind, token, span, args, query⟩ => postorders args ++ [⟨kind, token, span, args, query⟩]

/-- The nodes of trees one after another. -/
def postorders : List Node → List Node
  | [] => []
  | n :: ns => n.postorder ++ postorders ns

end

theorem postorder_eq (n : Node) : n.postorder = postorders n.args ++ [n] := by
  cases n; simp [postorder]

theorem postorders_eq_flatMap (ns : List Node) : postorders ns = ns.flatMap postorder := by
  induction ns with
  | nil => rfl
  | cons n ns ih => simp [postorders, ih]

mutual

theorem length_postorder : (n : Node) → n.postorder.length = n.size
  | ⟨_, _, _, args, _⟩ => by
    simp only [postorder, size, List.length_append, List.length_singleton, length_postorders args]
    omega

theorem length_postorders : (ns : List Node) → (postorders ns).length = sizes ns
  | [] => rfl
  | n :: ns => by simp [postorders, sizes, length_postorder n, length_postorders ns]

end

namespace Pending

/-- The nodes that a stack still visits. -/
def remaining (stack : List Pending) : List Node :=
  stack.flatMap fun p => if p.expanded then [p.node] else p.node.postorder

theorem remaining_cons (p : Pending) (stack : List Pending) :
    remaining (p :: stack) =
      (if p.expanded then [p.node] else p.node.postorder) ++ remaining stack := rfl

theorem remaining_map (ns : List Node) : remaining (ns.map (⟨·, false⟩)) = postorders ns := by
  simp [remaining, List.flatMap_map, postorders_eq_flatMap]

theorem remaining_expand (p : Pending) (stack : List Pending) :
    remaining (p.expand stack) = p.node.postorder ++ remaining stack := by
  rw [expand, remaining, List.flatMap_append, ← remaining, remaining_map, ← remaining,
    remaining_cons, if_pos rfl, postorder_eq, List.append_assoc]

end Pending

/-- A stack visits what remains of its trees, in order. -/
theorem traverseStack_eq_forM (visit : Node → ExceptT ε (StateM σ) Unit) (stack : List Pending) :
    traverseStack visit stack = (Pending.remaining stack).forM visit := by
  fun_induction traverseStack with
  | case1 => rfl
  | case2 p stack h ih =>
    have hp : (if p.expanded then [p.node] else p.node.postorder) = [p.node] := by
      split
      · rfl
      · rename_i he
        have : p.node.args = [] := by simpa [he] using h
        rw [postorder_eq, this]; rfl
    rw [Pending.remaining_cons, hp, ih]
    rfl
  | case3 p stack h ih =>
    have he : p.expanded = false := by simp_all
    rw [ih, Pending.remaining_expand, Pending.remaining_cons, he]
    rfl

/-- A traversal is a loop over the nodes in their order. -/
theorem traverse_eq_forM (root : Node) (visit : Node → ExceptT ε (StateM σ) Unit) :
    root.traverse visit = root.postorder.forM visit := by
  rw [traverse, traverseStack_eq_forM]
  simp [Pending.remaining]

end SqlResolution.Node
