import SqlResolution.Proofs.Overload.Blame
import SqlResolution.Proofs.Walk.Aggregates

/-!
# Where a walk fails

A walk that fails does so at the first node, in the order of its visits, that cannot be resolved.
The error points at that node or at one of its arguments, unless the node stands for a subquery.
Only what is said about subqueries fails for a reason of the resolver's own.
-/
namespace SqlResolution

open Steps

/-- A loop that fails has gone through the elements before the one that fails. -/
theorem Steps.exists_of_forM_error {ε σ α : Type} {visit : α → ExceptT ε (StateM σ) PUnit}
    {as : List α} {s u : σ} {e : ε} (h : forM as visit s = (.error e, u)) :
    ∃ visited a rest before, as = visited ++ a :: rest ∧ forM visited visit s = (.ok ⟨⟩, before) ∧
      visit a before = (.error e, u) := by
  induction as generalizing s with
  | nil => cases h
  | cons a as ih =>
    rw [List.forM_cons] at h
    obtain h | ⟨_, t, ha, h⟩ := cases_of_bind_error h
    · exact ⟨[], a, as, s, rfl, rfl, h⟩
    · obtain ⟨visited, b, rest, before, rfl, hvisited, hb⟩ := ih h
      refine ⟨a :: visited, b, rest, before, rfl, ?_, hb⟩
      rw [List.forM_cons, bind_of_ok ha]
      exact hvisited

theorem Schema.span?_of_reference {schema : Schema} {span : Span} {name : String} {e : ResolveError}
    (h : schema.reference span name = .error e) : e.span? = some span := by
  unfold Schema.reference at h
  split at h
  · cases h
    rfl
  · dsimp only at h
    split at h
    · cases h
    · split at h
      · cases h
      · cases h
        rfl

theorem Link.span?_of_ofNode {c : Context} {span : Span} {token : String} {e : ResolveError}
    (h : Link.ofNode c span token = .error e) : e.span? = some span := by
  unfold Link.ofNode at h
  split at h
  · rw [Link.named, Link.table_eq] at h
    split at h
    · simp only [bind, Except.bind] at h
      split at h
      · cases h
      · cases h
        rfl
    · cases h
      rfl
  · rw [Link.numbered, Link.table_eq] at h
    split at h
    · cases h
      rfl
    · split at h
      · cases h
        rfl
      · split at h <;> cases h
        rfl

theorem Literal.span?_of_parse {span : Span} {token : String} {e : ResolveError}
    (h : Literal.parse span token = .error e) :
    e.span? = some span ∨ ∃ cut, e = .cutInsideCharacter cut := by
  unfold Literal.parse at h
  split at h
  · cases h
  · split at h
    · cases h
      exact .inr ⟨_, rfl⟩
    · cases h
    · cases h
      exact .inl rfl

theorem Args.lastAggregate?_mem {args : Args} {position : Span}
    (h : args.lastAggregate? = some position) : position ∈ args.positions := by
  obtain ⟨⟨e, span⟩, hfind, rfl⟩ := Option.map_eq_some_iff.mp h
  have hmem := List.mem_reverse.mp (List.mem_of_find?_eq_some hfind)
  exact (List.of_mem_zip hmem).2

theorem Evaluator.TakesType.of_defined {e : Evaluator} (h : e.isUndefined = false) :
    e.TakesType := by
  intro hundefined
  rw [h] at hundefined
  cases hundefined

/-- What a call does to its arguments leaves those that have no type variables. -/
theorem maintained_takesType : Maintained (fun _ => True) Evaluator.TakesType where
  literal := by
    intro e hliteral
    refine .of_defined ?_
    cases hliteral with
    | constant hdefined _ => exact hdefined
    | typeName hcastable =>
      rename_i type
      rw [Evaluator.isUndefined, ColumnType.isUndefined, Evaluator.type]
      cases htag : type.tag <;> first | rfl | (rw [htag] at hcastable; cases hcastable)
  evalConstant := by
    intro c e _ htakes hconstant
    refine .of_defined ?_
    rw [Evaluator.isUndefined, Evaluator.evalConstant, Evaluator.type_eval]
    by_contra hundefined
    obtain ⟨x, hx⟩ := htakes (Bool.eq_true_of_not_eq_false hundefined)
    rw [Evaluator.linked?_of_isConstant hconstant] at hx
    cases hx
  assignType := by
    intro c e e' b type _ _ _ hassign
    obtain ⟨x, -, hx, -, -⟩ := Evaluator.assignType_ok hassign
    exact ⟨fun _ => ⟨x, hx⟩, trivial⟩
  adapt _ _ := .of_defined rfl

/-- A node that stands for a subquery. -/
def Node.IsSubquery (n : Node) : Prop := n.args = [] ∧ n.kind = .query

instance (n : Node) : Decidable n.IsSubquery :=
  inferInstanceAs (Decidable (n.args = [] ∧ n.kind = .query))

namespace Resolver

/-- The loop of a walk goes through the nodes before `n`, and fails there. -/
structure FailsAt (r : Resolver) (compilers : List Compiler) (root : Node) (schema : Schema)
    (w : Walk) (n : Node) (before : Walk) (e : ResolveError) : Prop where
  comes : ∃ visited rest, root.postorder = visited ++ n :: rest ∧
    forM visited (r.visit (r.query compilers)) (w.enter schema) = (.ok (), before)
  fails : (r.visit (r.query compilers) n before).1 = .error e

variable {r : Resolver} {compilers : List Compiler} {root n m : Node} {schema : Schema}
  {w before before' : Walk} {e e' : ResolveError}

theorem exists_failsAt (h : (r.walk (r.query compilers) root schema w).1 = .error e) :
    ∃ n before, r.FailsAt compilers root schema w n before e := by
  rcases hloop : forM root.postorder (r.visit (r.query compilers)) (w.enter schema) with
    ⟨error | _, after⟩
  · rw [walk_apply, hloop] at h
    cases h
    obtain ⟨visited, n, rest, before, horder, hvisited, hn⟩ := exists_of_forM_error hloop
    exact ⟨n, before, ⟨visited, rest, horder, hvisited⟩, by rw [hn]⟩
  · obtain ⟨-, answer, -, hanswer⟩ := walk_of_visits hloop
    rw [hanswer] at h
    cases h

/-- No loop that succeeds goes through the node that a walk fails at. -/
theorem loop_ne_ok {visited inner : List Node} {u : Walk}
    (hvisits : forM visited (r.visit (r.query compilers)) (w.enter schema) = (.ok (), before))
    (hfails : (r.visit (r.query compilers) n before).1 = .error e) :
    forM (visited ++ n :: inner) (r.visit (r.query compilers)) (w.enter schema) ≠ (.ok (), u) := by
  rcases hn : r.visit (r.query compilers) n before with ⟨result, after⟩
  rw [hn] at hfails
  dsimp only at hfails
  rw [hfails] at hn
  rw [List.forM_append, bind_of_ok hvisits, List.forM_cons, bind_of_error hn]
  exact nofun

/-- A walk fails at one node only. -/
theorem FailsAt.unique (h : r.FailsAt compilers root schema w n before e)
    (h' : r.FailsAt compilers root schema w m before' e') : n = m ∧ before = before' ∧ e = e' := by
  obtain ⟨⟨visited, rest, horder, hvisits⟩, hfails⟩ := h
  obtain ⟨⟨visited', rest', horder', hvisits'⟩, hfails'⟩ := h'
  rw [horder] at horder'
  -- Were one of the nodes before the other, the loop that comes to the later would fail before.
  obtain ⟨inner, rfl⟩ | ⟨inner, rfl, hrest⟩ := Node.append_eq_append_cons horder'
  · exact absurd hvisits (loop_ne_ok hvisits' hfails')
  · cases inner with
    | nil =>
      rw [List.append_nil] at hvisits'
      rw [hvisits] at hvisits'
      cases hvisits'
      obtain ⟨rfl, -⟩ := List.cons.inj hrest
      rw [hfails] at hfails'
      exact ⟨rfl, rfl, Except.error.inj hfails'⟩
    | cons first inner =>
      obtain ⟨rfl, -⟩ := List.cons.inj hrest
      exact absurd hvisits' (loop_ne_ok hvisits hfails)

/-! ### The error of a visit -/

/-- The error points at a node or at one of its arguments, or its token is cut inside a
character. -/
def BlamesNode (n : Node) (e : ResolveError) : Prop :=
  e.PointsInto n.span (n.args.map (·.span)) ∨ ∃ cut, e = .cutInsideCharacter cut

/-- The errors of a resolver's factories point into the calls. -/
def Blames (r : Resolver) : Prop :=
  ∀ name overloads, r.catalog.overloads? name = some overloads → ∀ o ∈ overloads,
    o.Blames r.settings

/-- The evaluators of a resolver have types, but for variables. -/
def TakesTypes (r : Resolver) : Prop :=
  r.Maintains (fun _ => True) (fun _ => True) fun _ => Evaluator.TakesType

theorem blamesNode_leafOf (hblames : r.Blames) {query : Node → Recursive Evaluator}
    (hkind : n.kind ≠ .query) {s t : Effects}
    (h : r.leafOf query schema n s = (.error e, t)) : BlamesNode n e := by
  have hspan : e.span? = some n.span → BlamesNode n e := fun hs => .inl ⟨n.span, hs, .inl rfl⟩
  have hcall : Recursive.ofResolution (r.catalog.resolve r.settings n.token n.span .empty) s =
      (.error e, t) → BlamesNode n e := by
    intro h
    have hnone : Args.empty.IsPlaced := rfl
    have hpoints := Catalog.pointsInto_resolve (hblames n.token) hnone nofun
      (Recursive.ofResolution_error h)
    exact .inl (hpoints.of_empty _)
  unfold leafOf at h
  cases hnode : n.kind with
  | column =>
    simp only [hnode, liftExcept_apply] at h
    exact hspan (Schema.span?_of_reference (Prod.mk.inj h).1)
  | bindVariable =>
    simp only [hnode, bind_apply, get_apply, liftExcept_apply] at h
    exact hspan (Link.span?_of_ofNode (Prod.mk.inj h).1)
  | memberAccess =>
    simp only [hnode] at h
    cases h
  | constant =>
    simp only [hnode, liftExcept_apply] at h
    exact (Literal.span?_of_parse (Prod.mk.inj h).1).elim hspan .inr
  | query => exact absurd hnode hkind
  | function =>
    simp only [hnode] at h
    exact hcall h
  | operation =>
    simp only [hnode] at h
    exact hcall h

theorem pointsInto_callOf (hblames : r.Blames) {es : List Evaluator} {s t : Effects}
    (hlength : es.length = n.args.length) (htakes : ∀ e ∈ es, e.TakesType)
    (h : r.callOf n es s = (.error e, t)) : e.PointsInto n.span (n.args.map (·.span)) := by
  unfold callOf at h
  cases haggregate : (Args.mk es (n.args.map (·.span))).lastAggregate? with
  | some position =>
    rw [haggregate] at h
    cases h
    exact ⟨position, rfl, .inr (Args.lastAggregate?_mem haggregate)⟩
  | none =>
    rw [haggregate] at h
    have hplaced : (Args.mk es (n.args.map (·.span))).IsPlaced := by
      rw [Args.IsPlaced, List.length_map]
      exact hlength
    exact Catalog.pointsInto_resolve (hblames n.token) hplaced htakes
      (Recursive.ofResolution_error h)

/-- Where the loop of a walk comes to a node, the arguments of the node that have no type are
variables. -/
theorem exists_arguments_of_visits (htakes : r.TakesTypes) {visited rest : List Node}
    (horder : root.postorder = visited ++ n :: rest)
    (hvisits : forM visited (r.visit (r.query compilers)) (w.enter schema) = (.ok (), before)) :
    ∃ base es, before = Walk.pushAll base es (n.args.map (·.span)) ∧
      es.length = n.args.length ∧ ∀ e ∈ es, e.TakesType := by
  obtain ⟨base, es, s, hresolved, rfl, hlength⟩ := exists_resolveTrees_of_visits horder hvisits
  refine ⟨base, es, rfl, hlength, ?_⟩
  have hqueries := htakes.nodesAlike.relates_queryOf
    fun compiler (_ : compiler ∈ compilers) text => (compiler text).asks_true.alike
  have hargs := (htakes.nodesAlike.relates_resolveTrees schema
    (fun n _ => hqueries schema n) n.args (fun _ _ => trivial) s s ⟨rfl, trivial⟩).1
  rw [hresolved] at hargs
  cases hargs with
  | ok haligned =>
    exact (forall_mem_of_aligned_same
      (haligned.aligned (i := 0) fun _ _ _ _ _ hsame => hsame)).2

/-- A visit that pushes what a step answers fails where the step does. -/
theorem exists_of_push_error {step : Walking Evaluator} {span : Span}
    (h : ((step >>= fun f => modify (·.push f span)) w).1 = .error e) :
    ∃ u, step w = (.error e, u) := by
  rcases hstep : step w with ⟨error | f, u⟩
  · rw [bind_of_error hstep] at h
    cases h
    exact ⟨u, rfl⟩
  · rw [bind_of_ok hstep] at h
    cases h

/-- Where a walk fails at a node without arguments, what the node becomes by its kind fails. -/
theorem FailsAt.leafOf (h : r.FailsAt compilers root schema w n before e) (hargs : n.args = []) :
    (r.leafOf (r.queryOf compilers) schema n before.effects).1 = .error e := by
  obtain ⟨⟨visited, rest, horder, hvisits⟩, hfails⟩ := h
  obtain ⟨count, habove, -⟩ := above_of_visited horder hvisits
  have hschema : before.schema = some schema := habove.schema
  rw [visit_of_leaf hargs] at hfails
  obtain ⟨u, hleaf⟩ := exists_of_push_error hfails
  rw [funext (r.query_ofRecursive compilers), leaf_ofRecursive n hschema,
    Walking.ofRecursive_apply] at hleaf
  exact (Prod.mk.inj hleaf).1

/-- A walk fails at a node that stands for no subquery for a reason that the node or one of its
arguments gives. -/
theorem FailsAt.blamesNode (hblames : r.Blames) (htakes : r.TakesTypes)
    (h : r.FailsAt compilers root schema w n before e) (hsubquery : ¬ n.IsSubquery) :
    BlamesNode n e := by
  by_cases hargs : n.args = []
  · exact blamesNode_leafOf hblames (fun hkind => hsubquery ⟨hargs, hkind⟩)
      (Prod.ext (h.leafOf hargs) rfl)
  · obtain ⟨⟨visited, rest, horder, hvisits⟩, hfails⟩ := h
    obtain ⟨base, es, rfl, hlength, hes⟩ := exists_arguments_of_visits htakes horder hvisits
    rw [visit_pushAll hargs base hlength] at hfails
    obtain ⟨u, hcall⟩ := exists_of_push_error hfails
    rw [Walking.ofRecursive_apply] at hcall
    exact .inl (pointsInto_callOf hblames hlength hes (Prod.ext (Prod.mk.inj hcall).1 rfl))

/-- A tree without subqueries that fails with an error at a span fails at a node of that span, or at
one with an argument of that span. -/
theorem exists_failsAt_of_span (hblames : r.Blames) (htakes : r.TakesTypes)
    (hqueries : ∀ n ∈ root.postorder, ¬ n.IsSubquery)
    (h : (r.walk (r.query compilers) root schema w).1 = .error e) {span : Span}
    (hspan : e.span? = some span) :
    ∃ n before, r.FailsAt compilers root schema w n before e ∧
      (span = n.span ∨ ∃ child ∈ n.args, span = child.span) := by
  obtain ⟨n, before, hat⟩ := exists_failsAt h
  refine ⟨n, before, hat, ?_⟩
  have hmem : n ∈ root.postorder := by
    obtain ⟨visited, rest, horder, -⟩ := hat.comes
    rw [horder]
    exact List.mem_append_right _ List.mem_cons_self
  obtain ⟨s, hs, hplace⟩ | ⟨cut, rfl⟩ := hat.blamesNode hblames htakes (hqueries n hmem)
  · rw [hspan] at hs
    cases hs
    refine hplace.imp_right fun hposition => ?_
    obtain ⟨child, hchild, rfl⟩ := List.mem_map.mp hposition
    exact ⟨child, hchild, rfl⟩
  · cases hspan

end Resolver

/-! ### Faults of the resolver's own -/

/-- An expression that a plan asks for, and the walk in which it is resolved. -/
structure Request where
  node : Node
  schema : Schema
  walk : Walk

/-- The expressions that the run of a plan asks for, in order. -/
def Plan.requests (resolve : Node → Schema → Walking Evaluator) : Plan → Walk → List Request
  | .finish _, _ | .fail _, _ => []
  | .resolve n schema next, w =>
    ⟨n, schema, w⟩ ::
      match resolve n schema w with
      | (.ok e, w) => (next (.ok e)).requests resolve (w.note (.resolved e))
      | (.error e, w) => (next (.error e)).requests resolve w
  | .pushTimestampRequired required next, w =>
    next.requests resolve { w with context := w.context.pushTimestampRequired required }
  | .popTimestampRequired next, w =>
    next.requests resolve { w with context := w.context.popTimestampRequired }
  | .inspect next, w => (next w.context).requests resolve w

/-- The walk for a request fails with a fault of the resolver's own. -/
def Request.FailsWith (r : Resolver) (compilers : List Compiler) (fault : InternalFault)
    (q : Request) : Prop :=
  (r.walk (r.query compilers) q.node q.schema q.walk).1 = .error (.internal fault)

namespace Resolver

/-- Why a subquery fails with a fault: there is no compiler for it or no text of it, its compiler
reports the fault of itself, or the fault is that of a subquery in an expression that was resolved
for the compiler. -/
inductive QueryFault (r : Resolver) : List Compiler → Node → Walk → InternalFault → Prop
  | noCompiler (n : Node) (w : Walk) : QueryFault r [] n w .noCompiler
  | noQueryModel (compiler : Compiler) (inner : List Compiler) {n : Node} (w : Walk)
      (missing : n.query = none) : QueryFault r (compiler :: inner) n w .noQueryModel
  | reported {compiler : Compiler} {inner : List Compiler} {n : Node} {w : Walk}
      {fault : InternalFault} {text : String} (model : n.query = some text)
      (fails : (follow (r.walk (r.query inner)) (compiler text) (w.openQuery text)).1 =
        .error (.internal fault))
      (ownFault : ∀ q ∈ (compiler text).requests (r.walk (r.query inner)) (w.openQuery text),
        ¬ q.FailsWith r inner fault) :
      QueryFault r (compiler :: inner) n w fault
  | passedOn {compiler : Compiler} {inner : List Compiler} {n m : Node} {w before : Walk}
      {fault : InternalFault} {text : String} {q : Request} (model : n.query = some text)
      (fails : (follow (r.walk (r.query inner)) (compiler text) (w.openQuery text)).1 =
        .error (.internal fault))
      (asked : q ∈ (compiler text).requests (r.walk (r.query inner)) (w.openQuery text))
      (failsAt : r.FailsAt inner q.node q.schema q.walk m before (.internal fault))
      (subquery : m.IsSubquery) (inside : QueryFault r inner m before fault) :
      QueryFault r (compiler :: inner) n w fault

variable {r : Resolver} {compilers : List Compiler} {root n : Node} {schema : Schema}
  {w before : Walk} {e : ResolveError} {fault : InternalFault}

theorem FailsAt.isSubquery (hblames : r.Blames) (htakes : r.TakesTypes)
    (h : r.FailsAt compilers root schema w n before (.internal fault)) : n.IsSubquery := by
  by_contra hsubquery
  obtain ⟨s, hs, -⟩ | ⟨cut, hcut⟩ := h.blamesNode hblames htakes hsubquery
  · cases hs
  · cases hcut

/-- Where a walk fails at a subquery, the compilers fail. -/
theorem FailsAt.query (h : r.FailsAt compilers root schema w n before e) (hn : n.IsSubquery) :
    (r.query compilers n before).1 = .error e := by
  have hleaf := h.leafOf hn.1
  unfold Resolver.leafOf at hleaf
  simp only [hn.2] at hleaf
  rw [query_ofRecursive, Walking.ofRecursive_apply]
  exact hleaf

/-- A query fails where its plan does. -/
theorem error_of_compile {resolve : Node → Schema → Walking Evaluator} {compiler : Compiler}
    {text : String} (h : (compile resolve compiler text w).1 = .error e) :
    (follow resolve (compiler text) (w.openQuery text)).1 = .error e := by
  rw [compile_apply] at h
  rcases hfollow : follow resolve (compiler text) (w.openQuery text) with ⟨error | records, after⟩
  · rw [hfollow] at h
    cases h
    rfl
  · rw [hfollow] at h
    cases h

/-- A walk fails with a fault of the resolver's own only at a subquery, which gives the reason. -/
theorem exists_queryFault (hblames : r.Blames) (htakes : r.TakesTypes)
    (h : (r.walk (r.query compilers) root schema w).1 = .error (.internal fault)) :
    ∃ n before, r.FailsAt compilers root schema w n before (.internal fault) ∧ n.IsSubquery ∧
      r.QueryFault compilers n before fault := by
  -- The induction is on the nesting of subqueries: those inside a query have one compiler less.
  induction compilers generalizing root schema w with
  | nil =>
    obtain ⟨n, before, hat⟩ := exists_failsAt h
    have hsubquery : n.IsSubquery := hat.isSubquery hblames htakes
    refine ⟨n, before, hat, hsubquery, ?_⟩
    cases hat.query hsubquery
    exact .noCompiler n before
  | cons compiler inner ih =>
    obtain ⟨n, before, hat⟩ := exists_failsAt h
    have hsubquery : n.IsSubquery := hat.isSubquery hblames htakes
    refine ⟨n, before, hat, hsubquery, ?_⟩
    have hquery := hat.query hsubquery
    rw [query] at hquery
    cases hmodel : n.query with
    | none =>
      rw [hmodel] at hquery
      cases hquery
      exact .noQueryModel compiler inner before hmodel
    | some text =>
      rw [hmodel] at hquery
      have hfails := error_of_compile hquery
      by_cases hasked : ∃ q ∈ (compiler text).requests (r.walk (r.query inner))
          (before.openQuery text), q.FailsWith r inner fault
      · obtain ⟨q, hq, hfault⟩ := hasked
        obtain ⟨m, _, hinner, hm, hinside⟩ := ih hfault
        exact .passedOn hmodel hfails hq hinner hm hinside
      · exact .reported hmodel hfails fun q hq hfault => hasked ⟨q, hq, hfault⟩

end Resolver
end SqlResolution
