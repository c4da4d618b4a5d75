import SqlResolution.Node.Postorder
import SqlResolution.Proofs.Steps
import SqlResolution.Proofs.Walk.Recursive

/-!
# A walk does what the recursion does

The loop over a tree's nodes pushes the evaluator that the recursion returns, or fails with its
error and leaves what it had pushed so far. A whole walk drops that too, so it is the recursion on
the context and the journal, and touches neither the stacks nor the schema.
-/
namespace SqlResolution

open Steps

namespace Walk

def effects (w : Walk) : Effects := ⟨w.context, w.journal⟩

def withEffects (w : Walk) (s : Effects) : Walk :=
  { w with context := s.context, journal := s.journal }

/-- Pushes entries one after another. -/
def pushAll (w : Walk) (es : List Evaluator) (positions : List Span) : Walk :=
  { w with
    evaluators := es.reverse ++ w.evaluators
    positions := positions.reverse ++ w.positions }

@[simp] theorem effects_withEffects (w : Walk) (s : Effects) : (w.withEffects s).effects = s := rfl

@[simp] theorem effects_pushAll (w : Walk) (es : List Evaluator) (positions : List Span) :
    (w.pushAll es positions).effects = w.effects := rfl

@[simp] theorem withEffects_pushAll (w : Walk) (es : List Evaluator) (positions : List Span)
    (s : Effects) :
    (w.pushAll es positions).withEffects s = (w.withEffects s).pushAll es positions := rfl

theorem leave_enter_pushAll (w : Walk) (schema : Schema) (s : Effects) (es : List Evaluator)
    (positions : List Span) :
    (((w.enter schema).withEffects s).pushAll es positions).leave =
      (w.withEffects s).pushAll es positions := rfl

theorem pushAll_pushAll (w : Walk) (es fs : List Evaluator) (ps qs : List Span) :
    (w.pushAll es ps).pushAll fs qs = w.pushAll (es ++ fs) (ps ++ qs) := by
  simp [pushAll]

variable {es : List Evaluator} {positions : List Span} {count : Nat}

/-- The top entries are the last ones pushed, in order. -/
theorem top_pushAll (w : Walk) (hes : es.length = count) (hpositions : positions.length = count) :
    (w.pushAll es positions).top count = ⟨es, positions⟩ := by
  have hevaluators : (es.reverse ++ w.evaluators).take count = es.reverse := by
    rw [← hes, ← List.length_reverse, List.take_left']
    simp
  have hspans : (positions.reverse ++ w.positions).take count = positions.reverse := by
    rw [← hpositions, ← List.length_reverse, List.take_left']
    simp
  simp only [top, pushAll, hevaluators, hspans, List.reverse_reverse]

theorem drop_pushAll (w : Walk) (hes : es.length = count) (hpositions : positions.length = count) :
    (w.pushAll es positions).drop count = w := by
  have hevaluators : (es.reverse ++ w.evaluators).drop count = w.evaluators := by
    rw [← hes, ← List.length_reverse, List.drop_left]
  have hspans : (positions.reverse ++ w.positions).drop count = w.positions := by
    rw [← hpositions, ← List.length_reverse, List.drop_left]
  simp only [drop, pushAll, hevaluators, hspans]

theorem aggregate?_pushAll (w : Walk) (hes : es.length = count)
    (hpositions : positions.length = count) :
    (w.pushAll es positions).aggregate? count = (Args.mk es positions).lastAggregate? := by
  have hevaluators : (es.reverse ++ w.evaluators).take count = es.reverse := by
    rw [← hes, ← List.length_reverse, List.take_left']
    simp
  have hzip : es.reverse.zip (positions.reverse ++ w.positions) = (es.zip positions).reverse := by
    have hlengths : es.length = positions.length := by omega
    rw [← List.append_nil es.reverse, List.zip_append (by simp [hlengths]), List.zip_nil_left,
      List.append_nil]
    exact (List.reverse_zipWith hlengths).symm
  simp only [aggregate?, Args.lastAggregate?, pushAll, hevaluators, hzip]

/-- Dropping back to where the stacks were drops all that was pushed since. -/
theorem truncate_pushAll (w start : Walk) (es : List Evaluator) (positions : List Span)
    (hevaluators : w.evaluators = start.evaluators) (hspans : w.positions = start.positions) :
    (w.pushAll es positions).truncate start = w := by
  have hes : (es.reverse ++ w.evaluators).length - start.evaluators.length = es.reverse.length := by
    simp [hevaluators]
  have hps : (positions.reverse ++ w.positions).length - start.positions.length =
      positions.reverse.length := by
    simp [hspans]
  simp only [truncate, pushAll, hes, hps, List.drop_left]

end Walk

/-- A step of the recursion as a step of a walk. -/
def Walking.ofRecursive (step : Recursive α) : Walking α := fun w =>
  let (result, s) := step w.effects
  (result, w.withEffects s)

namespace Walking

variable {α β : Type}

theorem ofRecursive_apply (step : Recursive α) (w : Walk) :
    ofRecursive step w = ((step w.effects).1, w.withEffects (step w.effects).2) := rfl

theorem ofRecursive_bind (step : Recursive α) (f : α → Recursive β) :
    ofRecursive (step >>= f) = ofRecursive step >>= fun a => ofRecursive (f a) := by
  funext w
  rw [bind_apply, ofRecursive_apply, ofRecursive_apply, bind_apply]
  rcases step w.effects with ⟨e | a, s⟩
  · rfl
  · rfl

theorem ofRecursive_capture (step : Recursive α) :
    ofRecursive (Recursive.capture step) = capture (ofRecursive step) := rfl

theorem ofRecursive_liftExcept (x : Except ResolveError α) :
    ofRecursive (liftExcept x) = liftExcept x := by
  cases x <;> rfl

end Walking

namespace Resolver

/-- A plan is followed alike where its expressions are resolved alike. -/
theorem follow_ofRecursive (resolve : Node → Schema → Recursive Evaluator) (plan : Plan) :
    follow (fun n schema => .ofRecursive (resolve n schema)) plan =
      .ofRecursive (schemaOf resolve plan) := by
  induction plan with
  | finish schema => rfl
  | fail e => rfl
  | resolve n schema next ih =>
    rw [follow, schemaOf, Walking.ofRecursive_bind, Walking.ofRecursive_capture]
    congr
    funext result
    rw [ih]
    cases result <;> rfl
  | pushTimestampRequired required next ih =>
    rw [follow, schemaOf, Walking.ofRecursive_bind, ih]
    rfl
  | popTimestampRequired next ih =>
    rw [follow, schemaOf, Walking.ofRecursive_bind, ih]
    rfl
  | inspect next ih =>
    rw [follow, schemaOf, Walking.ofRecursive_bind]
    funext w
    exact congrFun (ih w.context) w

theorem compile_ofRecursive (resolve : Node → Schema → Recursive Evaluator) (compiler : Compiler)
    (text : String) :
    compile (fun n schema => .ofRecursive (resolve n schema)) compiler text =
      .ofRecursive (cursorOf resolve compiler text) := by
  unfold compile cursorOf
  rw [follow_ofRecursive]
  simp only [Walking.ofRecursive_bind, Walking.ofRecursive_capture, Walking.ofRecursive_liftExcept]
  rfl

/-- The visits of a tree's nodes are those of its arguments and then its own. -/
theorem forM_postorder (n : Node) (visit : Node → Walking Unit) :
    forM n.postorder visit = forM (Node.postorders n.args) visit >>= fun _ => visit n := by
  rw [Node.postorder_eq, List.forM_append, List.forM_cons, List.forM_nil]
  simp only [bind_pure_unit]

/-- What visits from `w` did, where the recursion returned `result` for trees at `positions`: they
pushed its evaluators, or failed with its error on top of whatever they had pushed. -/
def Leaves (w : Walk) (positions : List Span) (visited : Except ResolveError Unit × Walk)
    (result : Except ResolveError (List Evaluator) × Effects) : Prop :=
  match result with
  | (.ok es, s) => visited = (.ok (), (w.withEffects s).pushAll es positions)
  | (.error e, s) => ∃ es ps, visited = (.error e, (w.withEffects s).pushAll es ps)

variable {r : Resolver} {query : Node → Recursive Evaluator} {schema : Schema}

/-- The arguments are all that was pushed for them, unless one is an aggregate. -/
theorem popArgs_pushAll (w : Walk) {es : List Evaluator} {positions : List Span} {count : Nat}
    (hes : es.length = count) (hpositions : positions.length = count) :
    popArgs count (w.pushAll es positions) =
      match (Args.mk es positions).lastAggregate? with
      | some position => (.error (.aggregateAsArgument position), w)
      | none => (.ok ⟨es, positions⟩, w) := by
  have hevaluators : ¬ (w.pushAll es positions).evaluators.length < count := by
    simp only [Walk.pushAll, List.length_append, List.length_reverse]
    omega
  have hspans : ¬ (w.pushAll es positions).positions.length < count := by
    simp only [Walk.pushAll, List.length_append, List.length_reverse]
    omega
  unfold popArgs
  simp only [bind_apply, get_apply, hevaluators, hspans, if_false, set_apply,
    Walk.drop_pushAll w hes hpositions, Walk.aggregate?_pushAll w hes hpositions,
    Walk.top_pushAll w hes hpositions]
  cases (Args.mk es positions).lastAggregate? <;> rfl

theorem leaf_ofRecursive (n : Node) {w : Walk} (hschema : w.schema = some schema) :
    r.leaf (fun n => .ofRecursive (query n)) n w =
      Walking.ofRecursive (r.leafOf query schema n) w := by
  unfold leaf leafOf
  simp only [bind_apply, get_apply, hschema]
  cases n.kind with
  | column => rw [Walking.ofRecursive_liftExcept]
  | bindVariable =>
    rw [Walking.ofRecursive_bind]
    exact congrFun (Walking.ofRecursive_liftExcept _).symm w
  | memberAccess => rfl
  | constant => rw [Walking.ofRecursive_liftExcept]
  | query => rfl
  | function => rfl
  | operation => rfl

theorem visit_of_leaf {n : Node} (hargs : n.args = []) (visitQuery : Node → Walking Evaluator) :
    r.visit visitQuery n = r.leaf visitQuery n >>= fun e => modify (·.push e n.span) := by
  unfold visit
  rw [hargs]
  rfl

/-- A visit of a node whose arguments stand on top of the stacks puts the call in their place. -/
theorem visit_pushAll {n : Node} (hargs : n.args ≠ []) (w : Walk) {es : List Evaluator}
    (hes : es.length = n.args.length) (visitQuery : Node → Walking Evaluator) :
    r.visit visitQuery n (w.pushAll es (n.args.map (·.span))) =
      (Walking.ofRecursive (r.callOf n es) >>= fun e => modify (·.push e n.span)) w := by
  have hisEmpty : n.args.isEmpty = false := by simpa using hargs
  unfold visit
  simp only [hisEmpty, Bool.false_eq_true, if_false, bind_apply,
    popArgs_pushAll w hes (List.length_map ..), Walking.ofRecursive_apply, callOf]
  cases (Args.mk es (n.args.map (·.span))).lastAggregate? with
  | some position => rfl
  | none => rfl

/-- A visit that pushes what a step of the recursion returns. -/
theorem leaves_push (w : Walk) (span : Span) (step : Recursive Evaluator) :
    Leaves w [span] ((Walking.ofRecursive step >>= fun e => modify (·.push e span)) w)
      ((do return [← step]) w.effects) := by
  rcases hstep : step w.effects with ⟨e | e, s⟩
  · have hwalk : Walking.ofRecursive step w = (.error e, w.withEffects s) := by
      rw [Walking.ofRecursive_apply, hstep]
    rw [bind_of_error hstep, bind_of_error hwalk]
    exact ⟨[], [], rfl⟩
  · have hwalk : Walking.ofRecursive step w = (.ok e, w.withEffects s) := by
      rw [Walking.ofRecursive_apply, hstep]
    rw [bind_of_ok hstep, bind_of_ok hwalk]
    rfl

theorem length_resolveTrees {ns : List Node} {es : List Evaluator} {s t : Effects}
    (h : r.resolveTrees query schema ns s = (.ok es, t)) : es.length = ns.length := by
  induction ns generalizing es s t with
  | nil =>
    cases h
    rfl
  | cons n ns ih =>
    rw [resolveTrees] at h
    obtain ⟨e, s', -, h⟩ := exists_of_bind_ok h
    obtain ⟨rest, t', hrest, h⟩ := exists_of_bind_ok h
    cases h
    rw [List.length_cons, List.length_cons, ih hrest]

/-- Where the visits of the arguments do what the recursion does, so do those of the whole tree. -/
theorem leaves_of_args {n : Node} (hargs : n.args ≠ []) {w : Walk}
    {visitQuery : Node → Walking Evaluator}
    (hns : Leaves w (n.args.map (·.span)) (forM (Node.postorders n.args) (r.visit visitQuery) w)
      (r.resolveTrees query schema n.args w.effects)) :
    Leaves w [n.span] (forM n.postorder (r.visit visitQuery) w)
      ((do return [← r.resolveTree query schema n]) w.effects) := by
  rw [forM_postorder, r.resolveTree_of_args query schema hargs, bind_assoc]
  rcases hresult : r.resolveTrees query schema n.args w.effects with ⟨e | es, s⟩
  · rw [hresult] at hns
    obtain ⟨fs, ps, hvisits⟩ := hns
    rw [bind_of_error hvisits, bind_of_error hresult]
    exact ⟨fs, ps, rfl⟩
  · rw [hresult] at hns
    rw [bind_of_ok hns, bind_of_ok hresult, visit_pushAll hargs _ (length_resolveTrees hresult)]
    exact leaves_push (w.withEffects s) n.span (r.callOf n es)

/-- Where the visits of a tree and then those of the others do what the recursion does, so do all
of them. -/
theorem leaves_cons {n : Node} {ns : List Node} {w : Walk} {visitQuery : Node → Walking Evaluator}
    (hn : Leaves w [n.span] (forM n.postorder (r.visit visitQuery) w)
      ((do return [← r.resolveTree query schema n]) w.effects))
    (hns : ∀ w' : Walk, w'.schema = w.schema →
      Leaves w' (ns.map (·.span)) (forM (Node.postorders ns) (r.visit visitQuery) w')
        (r.resolveTrees query schema ns w'.effects)) :
    Leaves w ((n :: ns).map (·.span)) (forM (Node.postorders (n :: ns)) (r.visit visitQuery) w)
      (r.resolveTrees query schema (n :: ns) w.effects) := by
  rw [Node.postorders, List.forM_append, resolveTrees]
  rcases hresult : r.resolveTree query schema n w.effects with ⟨e | e, s⟩
  · rw [bind_of_error hresult] at hn
    obtain ⟨fs, ps, hvisits⟩ := hn
    rw [bind_of_error hvisits, bind_of_error hresult]
    exact ⟨fs, ps, rfl⟩
  · rw [bind_of_ok hresult] at hn
    have hrest := hns ((w.withEffects s).pushAll [e] [n.span]) rfl
    rw [bind_of_ok hn, bind_of_ok hresult]
    rcases hresults : r.resolveTrees query schema ns s with ⟨e' | es, t⟩
    · rw [Walk.effects_pushAll, Walk.effects_withEffects, hresults] at hrest
      obtain ⟨fs, ps, hvisits⟩ := hrest
      rw [bind_of_error hresults]
      refine ⟨e :: fs, n.span :: ps, ?_⟩
      rw [hvisits, Walk.withEffects_pushAll, Walk.pushAll_pushAll]
      rfl
    · rw [Walk.effects_pushAll, Walk.effects_withEffects, hresults] at hrest
      rw [bind_of_ok hresults]
      change _ = _
      rw [hrest, Walk.withEffects_pushAll, Walk.pushAll_pushAll]
      rfl

mutual

/-- The visits of a tree's nodes do what the recursion does for the tree. -/
theorem leaves_postorder (r : Resolver) (query : Node → Recursive Evaluator) (schema : Schema) :
    (n : Node) → (w : Walk) → w.schema = some schema →
      Leaves w [n.span] (forM n.postorder (r.visit fun n => .ofRecursive (query n)) w)
        ((do return [← r.resolveTree query schema n]) w.effects)
  | ⟨kind, token, span, [], text⟩, w, hschema => by
    have hleaf := leaves_push w span (r.leafOf query schema ⟨kind, token, span, [], text⟩)
    rw [bind_apply, ← leaf_ofRecursive _ hschema, ← bind_apply] at hleaf
    rw [resolveTree_of_leaf r query schema rfl, forM_postorder, visit_of_leaf rfl]
    exact hleaf
  | ⟨kind, token, span, n :: ns, text⟩, w, hschema =>
    leaves_of_args (List.cons_ne_nil n ns) (leaves_postorders r query schema (n :: ns) w hschema)

/-- The visits of the nodes of trees do what the recursion does for the trees. -/
theorem leaves_postorders (r : Resolver) (query : Node → Recursive Evaluator) (schema : Schema) :
    (ns : List Node) → (w : Walk) → w.schema = some schema →
      Leaves w (ns.map (·.span))
        (forM (Node.postorders ns) (r.visit fun n => .ofRecursive (query n)) w)
        (r.resolveTrees query schema ns w.effects)
  | [], _, _ => rfl
  | n :: ns, w, hschema =>
    leaves_cons (leaves_postorder r query schema n w hschema) fun w' hw' =>
      leaves_postorders r query schema ns w' (hw'.trans hschema)

end

/-- A walk is a loop over the nodes with the schema of its own. -/
theorem walk_apply (r : Resolver) (query : Node → Walking Evaluator) (root : Node)
    (schema : Schema) (w : Walk) :
    r.walk query root schema w =
      match forM root.postorder (r.visit query) (w.enter schema) with
      | (.ok (), w') => popResult w'.leave
      | (.error e, w') => (.error e, w'.leave.truncate w) := by
  unfold walk
  simp only [bind_apply, get_apply, set_apply, Walking.capture, modify_apply,
    Node.traverse_eq_forM, List.forM_eq_forM]
  rcases forM root.postorder (r.visit query) (w.enter schema) with ⟨e | _, w'⟩ <;> rfl

/-- A walk whose queries are resolved by recursion is the recursion. -/
theorem walk_ofRecursive (r : Resolver) (query : Node → Recursive Evaluator) (root : Node)
    (schema : Schema) :
    r.walk (fun n => .ofRecursive (query n)) root schema =
      .ofRecursive (r.resolveTree query schema root) := by
  funext w
  have hleaves : Leaves (w.enter schema) [root.span]
      (forM root.postorder (r.visit fun n => .ofRecursive (query n)) (w.enter schema))
      ((do return [← r.resolveTree query schema root]) w.effects) :=
    leaves_postorder r query schema root (w.enter schema) rfl
  rw [walk_apply, Walking.ofRecursive_apply]
  rcases hresult : r.resolveTree query schema root w.effects with ⟨e | e, s⟩
  · rw [bind_of_error hresult] at hleaves
    obtain ⟨es, ps, hvisits⟩ := hleaves
    rw [hvisits]
    dsimp only
    rw [Walk.leave_enter_pushAll, (w.withEffects s).truncate_pushAll w es ps rfl rfl]
  · rw [bind_of_ok hresult] at hleaves
    rw [hleaves]
    rfl

/-- A query is compiled alike by a walk and by the recursion. -/
theorem query_ofRecursive (r : Resolver) (compilers : List Compiler) (n : Node) :
    r.query compilers n = .ofRecursive (r.queryOf compilers n) := by
  induction compilers generalizing n with
  | nil => rfl
  | cons compiler inner ih =>
    have hwalk : r.walk (r.query inner) =
        fun n schema => .ofRecursive (r.resolveTree (r.queryOf inner) schema n) := by
      rw [funext ih]
      funext n schema
      exact r.walk_ofRecursive _ n schema
    rw [query, queryOf, hwalk]
    cases n.query with
    | none => rfl
    | some text => exact compile_ofRecursive _ compiler text

/-- A walk with its stacks does for every tree what the recursion does: it returns the same
evaluator or error, leaves the same context and journal, and puts all else back as it was. -/
theorem resolve_eq_recursive (r : Resolver) (root : Node) (schema : Schema) :
    r.resolve root schema = .ofRecursive (r.resolveRecursively root schema) := by
  unfold resolve resolveRecursively
  rw [show r.query r.compilers = fun n => .ofRecursive (r.queryOf r.compilers n) from
    funext (r.query_ofRecursive r.compilers)]
  exact r.walk_ofRecursive _ root schema

end Resolver
end SqlResolution
