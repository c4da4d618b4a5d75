import SqlResolution.Proofs.Walk.Refinement

/-!
# The entries of a walk

A visit takes the evaluators of a node's arguments off the stacks and puts one there. In the order
of a traversal each node finds its arguments among the entries that the same walk pushed, so a walk
never reaches below them, and the whole tree leaves one entry.
-/
namespace SqlResolution

open Steps

namespace Node

/-- How many entries stand on a stack after the visits of nodes, where each node finds as many as it
has arguments. -/
def standing : Nat → List Node → Option Nat
  | count, [] => some count
  | count, n :: ns =>
    if n.args.length ≤ count then standing (count - n.args.length + 1) ns else none

theorem standing_append (count : Nat) (ns ms : List Node) :
    standing count (ns ++ ms) = (standing count ns).bind (standing · ms) := by
  induction ns generalizing count with
  | nil => rfl
  | cons n ns ih =>
    rw [List.cons_append, standing, standing]
    by_cases hargs : n.args.length ≤ count
    · rw [if_pos hargs, if_pos hargs, ih]
    · rw [if_neg hargs, if_neg hargs, Option.bind_none]

mutual

theorem standing_postorder (count : Nat) :
    (n : Node) → standing count n.postorder = some (count + 1)
  | ⟨kind, token, span, args, text⟩ => by
    have hcount : count + args.length - args.length + 1 = count + 1 := by omega
    rw [postorder, standing_append, standing_postorders count args, Option.bind_some, standing,
      if_pos (Nat.le_add_left ..), standing, hcount]

theorem standing_postorders (count : Nat) :
    (ns : List Node) → standing count (postorders ns) = some (count + ns.length)
  | [] => rfl
  | n :: ns => by
    rw [postorders, standing_append, standing_postorder count n, Option.bind_some,
      standing_postorders (count + 1) ns, List.length_cons]
    congr 1
    omega

end

/-- Where a traversal comes to a node, at least its arguments stand there. -/
theorem exists_standing {root n : Node} {visited rest : List Node}
    (horder : root.postorder = visited ++ n :: rest) :
    ∃ count, standing 0 visited = some count ∧ n.args.length ≤ count := by
  have hstanding := standing_postorder 0 root
  rw [horder, standing_append] at hstanding
  cases hvisited : standing 0 visited with
  | none =>
    rw [hvisited] at hstanding
    cases hstanding
  | some count =>
    by_cases hargs : n.args.length ≤ count
    · exact ⟨count, rfl, hargs⟩
    · rw [hvisited, Option.bind_some, standing, if_neg hargs] at hstanding
      cases hstanding

end Node

/-- A walk has so many entries of its own above those of another, which it has left alone. -/
structure Walk.Above (base : Walk) (count : Nat) (w : Walk) : Prop where
  evaluators : ∃ es, es.length = count ∧ w.evaluators = es ++ base.evaluators
  positions : ∃ ps : List Span, ps.length = count ∧ w.positions = ps ++ base.positions
  schema : w.schema = base.schema
  enclosing : w.enclosing = base.enclosing

namespace Walk

variable {base w : Walk} {count taken : Nat}

theorem above_self (w : Walk) : w.Above 0 w := ⟨⟨[], rfl, rfl⟩, ⟨[], rfl, rfl⟩, rfl, rfl⟩

namespace Above

theorem withEffects (h : base.Above count w) (s : Effects) : base.Above count (w.withEffects s) :=
  ⟨h.evaluators, h.positions, h.schema, h.enclosing⟩

theorem push (h : base.Above count w) (e : Evaluator) (position : Span) :
    base.Above (count + 1) (w.push e position) := by
  obtain ⟨es, hes, hevaluators⟩ := h.evaluators
  obtain ⟨ps, hps, hpositions⟩ := h.positions
  refine ⟨⟨e :: es, ?_, ?_⟩, ⟨position :: ps, ?_, ?_⟩, h.schema, h.enclosing⟩
  · rw [List.length_cons, hes]
  · rw [Walk.push, hevaluators, List.cons_append]
  · rw [List.length_cons, hps]
  · rw [Walk.push, hpositions, List.cons_append]

theorem drop (h : base.Above count w) (htaken : taken ≤ count) :
    base.Above (count - taken) (w.drop taken) := by
  obtain ⟨es, hes, hevaluators⟩ := h.evaluators
  obtain ⟨ps, hps, hpositions⟩ := h.positions
  refine ⟨⟨es.drop taken, ?_, ?_⟩, ⟨ps.drop taken, ?_, ?_⟩, h.schema, h.enclosing⟩
  · rw [List.length_drop, hes]
  · rw [Walk.drop, hevaluators, List.drop_append_of_le_length (by omega)]
  · rw [List.length_drop, hps]
  · rw [Walk.drop, hpositions, List.drop_append_of_le_length (by omega)]

/-- Arguments that stand among a walk's own entries are there to be taken. -/
theorem popArgs (h : base.Above count w) (htaken : taken ≤ count) :
    Resolver.popArgs taken w =
      match w.aggregate? taken with
      | some position => (.error (.aggregateAsArgument position), w.drop taken)
      | none => (.ok (w.top taken), w.drop taken) := by
  obtain ⟨es, hes, hevaluators⟩ := h.evaluators
  obtain ⟨ps, hps, hpositions⟩ := h.positions
  have hevaluators' : ¬ w.evaluators.length < taken := by
    rw [hevaluators, List.length_append]
    omega
  have hpositions' : ¬ w.positions.length < taken := by
    rw [hpositions, List.length_append]
    omega
  unfold Resolver.popArgs
  simp only [bind_apply, get_apply, hevaluators', hpositions', if_false, set_apply]
  cases w.aggregate? taken <;> rfl

end Above
end Walk

namespace Resolver

variable {r : Resolver} {query : Node → Recursive Evaluator} {base w w' : Walk} {count : Nat}

/-- A visit that succeeds has put one entry in the place of the arguments. -/
theorem exists_push_of_visit {n : Node} {schema : Schema} (hschema : w.schema = some schema)
    (habove : base.Above count w) (hargs : n.args.length ≤ count)
    (hvisit : r.visit (fun n => .ofRecursive (query n)) n w = (.ok (), w')) :
    ∃ e s, w' = ((w.drop n.args.length).withEffects s).push e n.span := by
  by_cases hleaf : n.args = []
  · rw [visit_of_leaf hleaf] at hvisit
    obtain ⟨e, w₁, hstep, hpush⟩ := exists_of_bind_ok hvisit
    rw [leaf_ofRecursive n hschema, Walking.ofRecursive_apply] at hstep
    obtain ⟨-, rfl⟩ := Prod.mk.inj hstep
    cases hpush
    refine ⟨e, (r.leafOf query schema n w.effects).2, ?_⟩
    rw [hleaf]
    rfl
  · have hisEmpty : n.args.isEmpty = false := by simpa using hleaf
    rw [visit, hisEmpty] at hvisit
    obtain ⟨args, w₁, hpop, hvisit⟩ := exists_of_bind_ok hvisit
    obtain ⟨e, w₂, hcall, hpush⟩ := exists_of_bind_ok hvisit
    rw [habove.popArgs hargs] at hpop
    cases haggregate : w.aggregate? n.args.length with
    | some position =>
      rw [haggregate] at hpop
      cases hpop
    | none =>
      rw [haggregate] at hpop
      cases hpop
      obtain ⟨-, rfl⟩ := Prod.mk.inj hcall
      cases hpush
      exact ⟨e, ⟨_, w.journal⟩, rfl⟩

theorem above_of_visit {n : Node} {schema : Schema} (hschema : w.schema = some schema)
    (habove : base.Above count w) (hargs : n.args.length ≤ count)
    (hvisit : r.visit (fun n => .ofRecursive (query n)) n w = (.ok (), w')) :
    base.Above (count - n.args.length + 1) w' := by
  obtain ⟨e, s, rfl⟩ := exists_push_of_visit hschema habove hargs hvisit
  exact ((habove.drop hargs).withEffects s).push e n.span

/-- Visits that succeed one after another leave as many entries as the nodes say. -/
theorem above_of_visits {ns : List Node} {after : Nat} {schema : Schema}
    (hschema : base.schema = some schema) (habove : base.Above count w)
    (hstanding : Node.standing count ns = some after)
    (hvisits : forM ns (r.visit fun n => .ofRecursive (query n)) w = (.ok (), w')) :
    base.Above after w' := by
  induction ns generalizing count w with
  | nil =>
    cases hstanding
    cases hvisits
    exact habove
  | cons n ns ih =>
    by_cases hargs : n.args.length ≤ count
    · rw [Node.standing, if_pos hargs] at hstanding
      rw [List.forM_cons] at hvisits
      obtain ⟨_, w₁, hvisit, hvisits⟩ := exists_of_bind_ok hvisits
      have hone := above_of_visit (habove.schema.trans hschema) habove hargs hvisit
      exact ih hone hstanding hvisits
    · rw [Node.standing, if_neg hargs] at hstanding
      cases hstanding

end Resolver
end SqlResolution
