import SqlResolution.Proofs.Overload.Parametricity
import SqlResolution.Proofs.Walk.Leaves
import SqlResolution.Proofs.Walk.Reentrancy

/-!
# Trees that resolve alike

Two resolvers do alike on a tree where they do alike at each of its nodes, and on the nodes of all
expressions that the plans of its queries ask for. What is alike of a node's evaluators may depend on
the node and on the schema of its rows.
-/
namespace SqlResolution

open Steps

/-- What two runs may leave different of the evaluator of a node over rows of a schema. -/
abbrev NodeRelation := Schema → Node → Evaluator → Evaluator → Prop

/-- Whether a node calls a function or an operation. -/
def Node.isCall (n : Node) : Bool :=
  !n.args.isEmpty || n.kind == .function || n.kind == .operation

/-- Two plans that go on alike after results and contexts that are alike. They ask for expressions
of nodes with a property. -/
inductive Plan.Alike (S : Context → Context → Prop) (N : Node → Prop) (Q : NodeRelation) :
    Plan → Plan → Prop
  | finish (schema : Schema) : Alike S N Q (.finish schema) (.finish schema)
  | fail (e : ResolveError) : Alike S N Q (.fail e) (.fail e)
  | resolve {n : Node} {schema : Schema} {next next' : Except ResolveError Evaluator → Plan}
      (hnodes : ∀ m ∈ n.postorder, N m)
      (hnext : ∀ result result', Outcome (Q schema n) result result' →
        Alike S N Q (next result) (next' result')) :
      Alike S N Q (.resolve n schema next) (.resolve n schema next')
  | pushTimestampRequired (required : Bool) {next next' : Plan} (hnext : Alike S N Q next next') :
      Alike S N Q (.pushTimestampRequired required next) (.pushTimestampRequired required next')
  | popTimestampRequired {next next' : Plan} (hnext : Alike S N Q next next') :
      Alike S N Q (.popTimestampRequired next) (.popTimestampRequired next')
  | inspect {next next' : Context → Plan}
      (hnext : ∀ c c', S c c' → Alike S N Q (next c) (next' c')) :
      Alike S N Q (.inspect next) (.inspect next')

/-- A plan that makes do with less makes do with more. -/
theorem Plan.Alike.mono {S S' : Context → Context → Prop} {N N' : Node → Prop}
    {Q Q' : NodeRelation} {plan plan' : Plan} (h : plan.Alike S N Q plan')
    (hS : ∀ c c', S' c c' → S c c') (hN : ∀ n, N n → N' n)
    (hQ : ∀ schema n e e', Q' schema n e e' → Q schema n e e') : plan.Alike S' N' Q' plan' := by
  induction h with
  | finish schema => exact .finish schema
  | fail e => exact .fail e
  | resolve hnodes _ ih =>
    refine .resolve (fun m hm => hN m (hnodes m hm)) fun result result' hresult => ?_
    exact ih result result' (hresult.mono (hQ _ _))
  | pushTimestampRequired required _ ih => exact .pushTimestampRequired required ih
  | popTimestampRequired _ ih => exact .popTimestampRequired ih
  | inspect _ ih => exact .inspect fun c c' hc => ih c c' (hS c c' hc)

/-- Each of the evaluators of a list of nodes is related. -/
inductive NodesAligned (Q : Node → Evaluator → Evaluator → Prop) :
    List Node → List Evaluator → List Evaluator → Prop
  | nil : NodesAligned Q [] [] []
  | cons {n : Node} {e e' : Evaluator} {ns : List Node} {es es' : List Evaluator}
      (head : Q n e e') (tail : NodesAligned Q ns es es') :
      NodesAligned Q (n :: ns) (e :: es) (e' :: es')

namespace NodesAligned

variable {Q : Node → Evaluator → Evaluator → Prop} {ns : List Node} {es es' : List Evaluator}

theorem map_eq {β : Type} {f : Evaluator → β} (h : NodesAligned Q ns es es')
    (hf : ∀ n e e', Q n e e' → f e = f e') : es.map f = es'.map f := by
  induction h with
  | nil => rfl
  | cons head _ ih => rw [List.map_cons, List.map_cons, hf _ _ _ head, ih]

/-- The arguments of a call are related by their places, where the nodes at the places relate
them. -/
theorem aligned {R : Nat → Evaluator → Evaluator → Prop} (h : NodesAligned Q ns es es') {i : Nat}
    (hplaces : ∀ k n, ns[k]? = some n → ∀ e e', Q n e e' → R (i + k) e e') : Aligned R i es es' := by
  induction h generalizing i with
  | nil => exact .nil i
  | @cons n e e' ns es es' head _ ih =>
    refine .cons (hplaces 0 n rfl e e' head) (ih ?_)
    intro k m hm
    rw [Nat.add_right_comm]
    exact hplaces (k + 1) m hm

end NodesAligned

theorem Args.lastAggregate?_congr {es es' : List Evaluator} (positions : List Span)
    (h : es.map Evaluator.kind = es'.map Evaluator.kind) :
    (Args.mk es positions).lastAggregate? = (Args.mk es' positions).lastAggregate? := by
  have hkinds : ∀ es : List Evaluator, (Args.mk es positions).lastAggregate? =
      ((((es.map Evaluator.kind).zip positions).reverse.find? fun p => p.1 == .groupBy).map
        (·.2)) := by
    intro es
    unfold lastAggregate?
    rw [List.zip_map_left, ← List.map_reverse, List.find?_map, Option.map_map]
    rfl
  rw [hkinds es, hkinds es', h]

namespace Recursive

/-- The effects of two runs, whose journals may differ. -/
def EffectsAlike (S : Context → Context → Prop) (s s' : Effects) : Prop := S s.context s'.context

variable {S : Context → Context → Prop} {α β : Type} {R : α → β → Prop}

theorem relates_ofResolution {x : Resolution α} {y : Resolution β} (h : Relates S R x y) :
    Relates (EffectsAlike S) R (ofResolution x) (ofResolution y) :=
  fun s s' hS => h s.context s'.context hS

theorem relates_capture {x : Recursive α} {y : Recursive β}
    (h : Relates (EffectsAlike S) R x y) :
    Relates (EffectsAlike S) (Outcome R) (capture x) (capture y) := by
  intro s s' hS
  obtain ⟨hresult, hstate⟩ := h s s' hS
  exact ⟨.ok hresult, hstate⟩

end Recursive

namespace Resolver

/-- Two resolvers do alike at each node with a property. -/
structure NodesAlike (S : Context → Context → Prop) (N : Node → Prop) (Q : NodeRelation)
    (r r' : Resolver) : Prop where
  pushTimestampRequired : ∀ {c c'} (required : Bool), S c c' →
    S (c.pushTimestampRequired required) (c'.pushTimestampRequired required)
  popTimestampRequired : ∀ {c c'}, S c c' → S c.popTimestampRequired c'.popTimestampRequired
  kind : ∀ {schema n e e'}, Q schema n e e' → e.kind = e'.kind
  literal : ∀ {schema n e}, e.IsLiteral → Q schema n e e
  column : ∀ {schema : Schema} {n i label}, (schema.type i).isUndefined = false →
    Q schema n (.column i (schema.type i) label) (.column i (schema.type i) label)
  link : ∀ {schema n c c'}, N n → n.args = [] → n.kind = .bindVariable → S c c' →
    Outcome (Q schema n) (Link.ofNode c n.span n.token) (Link.ofNode c' n.span n.token)
  cursor : ∀ schema n records, Q schema n (.cursor records) (.cursor records)
  call : ∀ {schema n es es'}, N n → n.isCall = true → NodesAligned (Q schema) n.args es es' →
    Relates S (Q schema n)
      (r.catalog.resolve r.settings n.token n.span ⟨es, n.args.map (·.span)⟩)
      (r'.catalog.resolve r'.settings n.token n.span ⟨es', n.args.map (·.span)⟩)

namespace NodesAlike

open Recursive

variable {S : Context → Context → Prop} {N : Node → Prop} {Q : NodeRelation} {r r' : Resolver}
  {query query' : Node → Recursive Evaluator}

theorem relates_leafOf (h : NodesAlike S N Q r r') {schema : Schema} {n : Node}
    (hquery : Relates (EffectsAlike S) (Q schema n) (query n) (query' n)) (hn : N n)
    (hargs : n.args = []) :
    Relates (EffectsAlike S) (Q schema n) (r.leafOf query schema n)
      (r'.leafOf query' schema n) := by
  have hcall : n.isCall = true →
      Relates (EffectsAlike S) (Q schema n)
        (ofResolution (r.catalog.resolve r.settings n.token n.span .empty))
        (ofResolution (r'.catalog.resolve r'.settings n.token n.span .empty)) := by
    intro hisCall
    have haligned : NodesAligned (Q schema) n.args [] [] := by
      rw [hargs]
      exact .nil
    have hresolve := h.call hn hisCall haligned
    rw [hargs] at hresolve
    exact relates_ofResolution hresolve
  unfold leafOf
  cases hkind : n.kind with
  | column =>
    refine .liftExcept (.refl fun e he => ?_)
    obtain hliteral | ⟨i, label, rfl, hdefined⟩ := Schema.reference_ok he
    · exact h.literal hliteral
    · exact h.column hdefined
  | constant => exact .liftExcept (.refl fun e he => h.literal (Literal.isLiteral_of_parse he))
  | bindVariable => exact .bind_get fun s s' hS => .liftExcept (h.link hn hargs hkind hS)
  | memberAccess => exact .pure (h.literal (Evaluator.isLiteral_ofString n.token))
  | query => exact hquery
  | function => exact hcall (by simp [Node.isCall, hkind])
  | operation => exact hcall (by simp [Node.isCall, hkind])

theorem relates_callOf (h : NodesAlike S N Q r r') {schema : Schema} {n : Node} {es es' : List Evaluator} (hn : N n)
    (hargs : n.args ≠ []) (hes : NodesAligned (Q schema) n.args es es') :
    Relates (EffectsAlike S) (Q schema n) (r.callOf n es) (r'.callOf n es') := by
  have hkinds := hes.map_eq (f := Evaluator.kind) fun _ _ _ related => h.kind related
  have hisCall : n.isCall = true := by simp [Node.isCall, hargs]
  unfold callOf
  dsimp only
  rw [← Args.lastAggregate?_congr _ hkinds]
  split
  · exact .throw _
  · exact relates_ofResolution (h.call hn hisCall hes)

mutual

/-- Trees of nodes with the property resolve alike. -/
theorem relates_resolveTree (h : NodesAlike S N Q r r') (schema : Schema)
    (hquery : ∀ n, N n → Relates (EffectsAlike S) (Q schema n) (query n) (query' n)) :
    (n : Node) → (∀ m ∈ n.postorder, N m) →
      Relates (EffectsAlike S) (Q schema n) (r.resolveTree query schema n)
        (r'.resolveTree query' schema n)
  | ⟨kind, token, span, [], text⟩, hnodes => by
    have hn := hnodes ⟨kind, token, span, [], text⟩ (by simp [Node.postorder])
    rw [resolveTree, resolveTree]
    exact h.relates_leafOf (hquery _ hn) hn rfl
  | ⟨kind, token, span, n :: ns, text⟩, hnodes => by
    have hn := hnodes ⟨kind, token, span, n :: ns, text⟩ (by simp [Node.postorder])
    have hargs : ∀ m ∈ Node.postorders (n :: ns), N m := fun m hm =>
      hnodes m (by
        rw [Node.postorder]
        exact List.mem_append_left _ hm)
    rw [resolveTree, resolveTree]
    exact .bind (relates_resolveTrees h schema hquery (n :: ns) hargs) fun es es' hes =>
      h.relates_callOf hn (List.cons_ne_nil n ns) hes

theorem relates_resolveTrees (h : NodesAlike S N Q r r') (schema : Schema)
    (hquery : ∀ n, N n → Relates (EffectsAlike S) (Q schema n) (query n) (query' n)) :
    (ns : List Node) → (∀ m ∈ Node.postorders ns, N m) →
      Relates (EffectsAlike S) (NodesAligned (Q schema) ns) (r.resolveTrees query schema ns)
        (r'.resolveTrees query' schema ns)
  | [], _ => .pure .nil
  | n :: ns, hnodes => by
    rw [Node.postorders] at hnodes
    have hhead : ∀ m ∈ n.postorder, N m := fun m hm => hnodes m (List.mem_append_left _ hm)
    have htail : ∀ m ∈ Node.postorders ns, N m := fun m hm => hnodes m (List.mem_append_right _ hm)
    rw [resolveTrees, resolveTrees]
    exact .bind (relates_resolveTree h schema hquery n hhead) fun e e' he =>
      .bind (relates_resolveTrees h schema hquery ns htail) fun es es' hes => .pure (.cons he hes)

end

theorem relates_schemaOf (h : NodesAlike S N Q r r')
    {resolve resolve' : Node → Schema → Recursive Evaluator}
    (hresolve : ∀ n schema, (∀ m ∈ n.postorder, N m) →
      Relates (EffectsAlike S) (Q schema n) (resolve n schema) (resolve' n schema))
    {plan plan' : Plan} (hplan : plan.Alike S N Q plan') :
    Relates (EffectsAlike S) (· = ·) (schemaOf resolve plan) (schemaOf resolve' plan') := by
  induction hplan with
  | finish schema => exact .pure rfl
  | fail e => exact .throw e
  | resolve hnodes _ ih =>
    refine .bind (relates_capture (hresolve _ _ hnodes)) fun result result' hresult => ?_
    have hrest := ih result result' hresult
    cases hresult with
    | error e => exact hrest
    | ok related => exact .bind (.modify fun _ _ hS => hS) fun _ _ _ => hrest
  | pushTimestampRequired required _ ih =>
    exact .bind (.modify fun _ _ hS => h.pushTimestampRequired required hS) fun _ _ _ => ih
  | popTimestampRequired _ ih =>
    exact .bind (.modify fun _ _ hS => h.popTimestampRequired hS) fun _ _ _ => ih
  | inspect _ ih => exact .bind_get fun s s' hS => ih s.context s'.context hS

theorem relates_cursorOf (h : NodesAlike S N Q r r')
    {resolve resolve' : Node → Schema → Recursive Evaluator}
    (hresolve : ∀ n schema, (∀ m ∈ n.postorder, N m) →
      Relates (EffectsAlike S) (Q schema n) (resolve n schema) (resolve' n schema))
    {compiler : Compiler} {text : String}
    (hplan : (compiler text).Alike S N Q (compiler text)) (schema : Schema) (n : Node) :
    Relates (EffectsAlike S) (Q schema n) (cursorOf resolve compiler text)
      (cursorOf resolve' compiler text) := by
  refine .bind (.modify fun _ _ hS => h.pushTimestampRequired false hS) fun _ _ _ => ?_
  refine .bind (.modify fun _ _ hS => hS) fun _ _ _ => ?_
  refine .bind (relates_capture (h.relates_schemaOf hresolve hplan)) ?_
  intro records records' hrecords
  refine .bind (.modify fun _ _ hS => h.popTimestampRequired hS) fun _ _ _ => ?_
  refine .bind (.liftExcept hrecords) ?_
  rintro records _ rfl
  exact .pure (h.cursor schema n records)

theorem relates_queryOf (h : NodesAlike S N Q r r') {compilers : List Compiler}
    (hplans : ∀ compiler ∈ compilers, ∀ text, (compiler text).Alike S N Q (compiler text))
    (schema : Schema) (n : Node) :
    Relates (EffectsAlike S) (Q schema n) (r.queryOf compilers n) (r'.queryOf compilers n) := by
  induction compilers generalizing schema n with
  | nil => exact .throw _
  | cons compiler inner ih =>
    rw [queryOf, queryOf]
    cases n.query with
    | none => exact .throw _
    | some text =>
      have hinner := ih fun compiler hmem => hplans compiler (List.mem_cons_of_mem _ hmem)
      refine h.relates_cursorOf (fun n schema hnodes => ?_) (hplans compiler List.mem_cons_self text)
        schema n
      exact h.relates_resolveTree schema (fun n _ => hinner schema n) n hnodes

/-- Walks over a tree of nodes with the property do alike. -/
theorem relates_resolve (h : NodesAlike S N Q r r') {root : Node}
    (hroot : ∀ m ∈ root.postorder, N m)
    (hcompilers : r'.compilers = r.compilers)
    (hplans : ∀ compiler ∈ r.compilers, ∀ text, (compiler text).Alike S N Q (compiler text))
    (schema : Schema) :
    Relates (fun w w' : Walk => S w.context w'.context) (Q schema root) (r.resolve root schema)
      (r'.resolve root schema) := by
  intro w w' hS
  have hqueries := h.relates_queryOf hplans
  have htree := h.relates_resolveTree schema (fun n _ => hqueries schema n) root hroot
  unfold resolve
  rw [walk_query_eq, walk_query_eq, hcompilers, Walking.ofRecursive_apply,
    Walking.ofRecursive_apply]
  exact htree w.effects w'.effects hS

end NodesAlike
end Resolver
end SqlResolution
