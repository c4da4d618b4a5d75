import SqlResolution.Proofs.Node.Places
import SqlResolution.Proofs.Steps

/-!
# The visits of a traversal

A traversal visits the nodes of a tree in postorder, up to the first visit that fails. Its loop is
over after at most two passes for each node: one that pushes the arguments, and one that visits.
-/
namespace SqlResolution.Node

open Steps

variable {ε σ : Type} {visit : Node → ExceptT ε (StateM σ) Unit} {s : σ}

/-- Visits nodes in turn, each in the state that the visit before it left. Only the last visit may
fail, and its error is the result. -/
inductive Visits (visit : Node → ExceptT ε (StateM σ) Unit) :
    List Node → σ → Except ε Unit → σ → Prop
  | done (s : σ) : Visits visit [] s (.ok ()) s
  | next {n : Node} {ns : List Node} {s t u : σ} {result : Except ε Unit}
      (visited : visit n s = (.ok (), t)) (rest : Visits visit ns t result u) :
      Visits visit (n :: ns) s result u
  | stop {n : Node} {s t : σ} {e : ε} (fails : visit n s = (.error e, t)) :
      Visits visit [n] s (.error e) t

/-- The visitor that also notes which nodes it was called on. -/
def noting (visit : Node → ExceptT ε (StateM σ) Unit) (n : Node) :
    ExceptT ε (StateM (σ × List Node)) Unit := fun (s, seen) =>
  let (result, s) := visit n s
  (result, (s, seen ++ [n]))

/-- A loop over nodes visits some of them from the first one on, and all unless a visit fails. -/
theorem exists_visits (visit : Node → ExceptT ε (StateM σ) Unit) (ns : List Node) (s : σ) :
    ∃ visited rest result t, ns = visited ++ rest ∧ ns.forM visit s = (result, t) ∧
      Visits visit visited s result t ∧ (result = .ok () → rest = []) ∧
      ∀ seen, ns.forM (noting visit) (s, seen) = (result, (t, seen ++ visited)) := by
  induction ns generalizing s with
  | nil => exact ⟨[], [], .ok (), s, rfl, rfl, .done s, fun _ => rfl, fun seen => by simp⟩
  | cons n ns ih =>
    rcases hn : visit n s with ⟨e | ⟨⟩, t⟩
    · refine ⟨[n], ns, .error e, t, rfl, bind_of_error hn _, .stop hn, nofun, fun seen => ?_⟩
      refine bind_of_error ?_ _
      simp only [noting, hn]
    · obtain ⟨visited, rest, result, u, rfl, hloop, hvisits, hall, hnoting⟩ := ih t
      refine ⟨n :: visited, rest, result, u, rfl, (bind_of_ok hn _).trans hloop,
        .next hn hvisits, hall, fun seen => ?_⟩
      have hnoted : noting visit n (s, seen) = (.ok (), (t, seen ++ [n])) := by
        simp only [noting, hn]
      refine (bind_of_ok hnoted _).trans ?_
      rw [hnoting, List.append_assoc]
      rfl

namespace Pending

/-- At most so many passes of the loop over a stack, and the stack that is left. -/
def passes (visit : Node → ExceptT ε (StateM σ) Unit) :
    Nat → List Pending → ExceptT ε (StateM σ) (List Pending)
  | 0, stack => return stack
  | _ + 1, [] => return []
  | count + 1, p :: stack =>
    if p.expanded || p.node.args.isEmpty then do
      visit p.node
      passes visit count stack
    else passes visit count (p.expand stack)

/-- Each pass takes a step off those that a stack still takes, so they come to an end. -/
theorem passes_eq {count : Nat} {stack : List Pending} (h : weights stack ≤ count) :
    passes visit count stack = (do traverseStack visit stack; return []) := by
  induction count generalizing stack with
  | zero =>
    cases stack with
    | nil =>
      rw [passes, traverseStack]
      rfl
    | cons p stack =>
      have := p.weight_pos
      rw [weights_cons] at h
      omega
  | succ count ih =>
    cases stack with
    | nil =>
      rw [passes, traverseStack]
      rfl
    | cons p stack =>
      rw [weights_cons] at h
      rw [passes, traverseStack]
      split
      · have := p.weight_pos
        rw [ih (by omega), bind_assoc]
      · rename_i hpushes
        have hfresh : p.expanded = false := by simp_all
        have := weights_expand p stack
        rw [weight, hfresh, if_neg Bool.false_ne_true] at h
        exact ih (by omega)

end Pending

/-- A traversal visits the nodes of a tree in postorder, from the first one on, each in the state
that the visit before left. Without an error it visits all of them, and with one it stops after the
first visit that fails, whose error is the result. In postorder stands each place of the tree once, a
place before those above it and before those to its right. The loop is over after two passes for each
node at the most. -/
theorem traverse_visits (root : Node) (visit : Node → ExceptT ε (StateM σ) Unit) (s : σ) :
    ∃ visited rest result t, root.postorder = visited ++ rest ∧
      root.traverse visit s = (result, t) ∧
      root.traverse (noting visit) (s, []) = (result, (t, visited)) ∧
      Visits visit visited s result t ∧
      (result = .ok () → visited = root.postorder ∧ visited.length = root.size) ∧
      (∃ places, root.IsPostorder places ∧ places.Nodup ∧
        places.map root.at? = root.postorder.map some) ∧
      ∀ count, 2 * root.size ≤ count →
        Pending.passes visit count [⟨root, false⟩] s = (result.map fun _ => [], t) := by
  obtain ⟨visited, rest, result, t, hnodes, hloop, hvisits, hall, hnoting⟩ :=
    exists_visits visit root.postorder s
  rw [← traverse_eq_forM] at hloop
  have hnoted := hnoting []
  rw [← traverse_eq_forM, List.nil_append] at hnoted
  refine ⟨visited, rest, result, t, hnodes, hloop, hnoted, hvisits, fun hresult => ?_,
    ⟨root.places, root.isPostorder_places, root.isPostorder_places.nodup, root.map_at?_places⟩,
    fun count hcount => ?_⟩
  · rw [hall hresult, List.append_nil] at hnodes
    rw [← hnodes]
    exact ⟨rfl, root.length_postorder⟩
  · have hweights : Pending.weights [⟨root, false⟩] ≤ count := by
      simpa [Pending.weights, Pending.weight] using hcount
    rw [Pending.passes_eq hweights, bind_apply]
    rw [traverse] at hloop
    rw [hloop]
    cases result <;> rfl

end SqlResolution.Node
