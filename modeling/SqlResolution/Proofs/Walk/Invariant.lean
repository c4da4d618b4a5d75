import SqlResolution.Proofs.Walk.Parametricity

/-!
# What resolution maintains

An invariant of the context, with a property of evaluators that goes with it, holds after a
resolution where each of its steps keeps it. This is the case of doing alike in which both runs are
the same.
-/
namespace SqlResolution

open Steps

/-- What a call does to its arguments keeps an invariant of contexts and a property of
evaluators. -/
structure Maintained (I : Context → Prop) (J : Evaluator → Prop) : Prop where
  literal : ∀ {e}, e.IsLiteral → J e
  evalConstant : ∀ {c e}, I c → J e → e.isConstant = true → J (e.evalConstant c.table).2
  assignType : ∀ {c e e' b type}, I c → J e → e.isUndefined = true →
    e.assignType c.table type = .ok (e', b) → J e' ∧ I (c.withTable b)
  adapt : ∀ {e adapter}, J e → adapter = .uuidToStr ∨ adapter = .intervalToStr →
    J (.adapt adapter e.type .string e)

/-- The same context, in which the invariant holds. -/
def SameContext (I : Context → Prop) (c c' : Context) : Prop := c = c' ∧ I c

/-- The same evaluator, which has the property. -/
def SameEvaluator (J : Evaluator → Prop) (e e' : Evaluator) : Prop := e = e' ∧ J e

theorem Maintained.uniform {I : Context → Prop} {J : Evaluator → Prop} (h : Maintained I J) :
    Uniform (SameContext I) (SameEvaluator J) where
  type := by
    rintro e _ ⟨rfl, -⟩
    rfl
  isConstant := by
    rintro e _ ⟨rfl, -⟩
    rfl
  isRuntimeConstant := by
    rintro e _ ⟨rfl, -⟩
    rfl
  typeConstant := by
    rintro e _ ⟨rfl, -⟩
    rfl
  evalConstant := by
    rintro c _ e _ ⟨rfl, hI⟩ ⟨rfl, hJ⟩ hconstant
    exact ⟨rfl, rfl, h.evalConstant hI hJ hconstant⟩
  assignType := by
    rintro c _ e _ ⟨rfl, hI⟩ ⟨rfl, hJ⟩ hundefined type
    refine .refl ?_
    rintro ⟨e', b⟩ hassign
    obtain ⟨hJ', hI'⟩ := h.assignType hI hJ hundefined hassign
    exact ⟨⟨rfl, hJ'⟩, rfl, hI'⟩
  constant hdefined hconforms := ⟨rfl, h.literal (.constant hdefined hconforms)⟩
  adapt := by
    rintro e _ adapter ⟨rfl, hJ⟩ hadapter
    exact ⟨rfl, h.adapt hJ hadapter⟩

theorem aligned_same {J : Evaluator → Prop} {es : List Evaluator} (h : ∀ e ∈ es, J e) (i : Nat) :
    Aligned (fun _ => SameEvaluator J) i es es := by
  induction es generalizing i with
  | nil => exact .nil i
  | cons e es ih =>
    obtain ⟨he, hes⟩ := List.forall_mem_cons.mp h
    exact .cons ⟨rfl, he⟩ (ih hes (i + 1))

theorem eq_of_aligned_same {J : Nat → Evaluator → Prop} {es es' : List Evaluator} {i : Nat}
    (h : Aligned (fun i => SameEvaluator (J i)) i es es') :
    es = es' ∧ ∀ k e, es[k]? = some e → J (i + k) e := by
  induction h with
  | nil => exact ⟨rfl, fun k e he => by cases he⟩
  | @cons i e _ es _ head _ ih =>
    obtain ⟨rfl, hes⟩ := ih
    obtain ⟨rfl, he⟩ := head
    refine ⟨rfl, ?_⟩
    intro k f hf
    cases k with
    | zero =>
      cases hf
      exact he
    | succ k =>
      rw [← Nat.add_assoc, Nat.add_right_comm]
      exact hes k f hf

theorem forall_mem_of_aligned_same {J : Evaluator → Prop} {es es' : List Evaluator} {i : Nat}
    (h : Aligned (fun _ => SameEvaluator J) i es es') : es = es' ∧ ∀ e ∈ es, J e := by
  obtain ⟨rfl, hplaces⟩ := eq_of_aligned_same (J := fun _ => J) h
  refine ⟨rfl, ?_⟩
  intro e he
  obtain ⟨k, hk⟩ := List.getElem?_of_mem he
  exact hplaces k e hk

/-- Aligned arguments that are the same have the property of each place. -/
theorem Args.eq_of_aligned_same {J : Nat → Evaluator → Prop} {args args' : Args}
    (h : args.Aligned (fun i => SameEvaluator (J i)) args') :
    args = args' ∧ ∀ i e, args.get? i = some e → J i e := by
  obtain ⟨es, positions⟩ := args
  obtain ⟨es', positions'⟩ := args'
  obtain ⟨hpositions, hevaluators⟩ := h
  obtain ⟨rfl, hes⟩ := SqlResolution.eq_of_aligned_same hevaluators
  cases hpositions
  refine ⟨rfl, ?_⟩
  intro i e he
  have hi := hes i e he
  rwa [Nat.zero_add] at hi

/-- What an overload builds from arguments with one property has another. -/
def Overload.Maintains (I : Context → Prop) (J P : Evaluator → Prop) (settings : Settings)
    (o : Overload) : Prop :=
  ∀ span args c e, I c → (∀ e ∈ args.evaluators, J e) →
    o.factory.build span args settings c = .ok (some e) → P (e.finish settings c.table)

theorem Overload.Maintains.buildsAlike {I : Context → Prop} {J P : Evaluator → Prop}
    {settings : Settings} {o : Overload} (h : o.Maintains I J P settings) (name : String)
    (span : Span) :
    o.BuildsAlike (SameContext I) (fun _ => SameEvaluator J) (SameEvaluator P) settings settings
      name span where
  tailType? i args args' haligned := by
    obtain ⟨rfl, -⟩ := Args.eq_of_aligned_same (J := fun _ => J) haligned
    rfl
  create args args' haligned := by
    obtain ⟨rfl, -⟩ := Args.eq_of_aligned_same (J := fun _ => J) haligned
    obtain ⟨-, heach⟩ := forall_mem_of_aligned_same haligned.evaluators
    refine o.relates_create name ?_ ?_
    · rintro c _ ⟨rfl, -⟩
      rfl
    · rintro c _ ⟨rfl, hI⟩
      refine .refl ?_
      intro built hbuilt
      cases built with
      | none => exact .none
      | some e => exact .some ⟨rfl, rfl, h span args c e hI heach hbuilt⟩

/-- A call keeps the invariant, also where it fails, and answers an evaluator with the property of
what is built. -/
theorem Maintained.resolve {I : Context → Prop} {J P : Evaluator → Prop} (h : Maintained I J)
    (hargument : ∀ e, J e → P e) {c : Catalog} {settings : Settings} {name : String} {span : Span}
    {args : Args} {context : Context}
    (hoverloads : ∀ overloads, c.overloads? name = some overloads → ∀ o ∈ overloads,
      o.Maintains I J P settings)
    (hargs : ∀ e ∈ args.evaluators, J e) (hcontext : I context) :
    I (c.resolve settings name span args context).2 ∧
      ∀ e, (c.resolve settings name span args context).1 = .ok e → P e := by
  have hrelates : Relates (SameContext I) (SameEvaluator P) (c.resolve settings name span args)
      (c.resolve settings name span args) := by
    refine c.relates_resolve (fun _ => h.uniform) ?_ ?_ ?_ ⟨rfl, aligned_same hargs 0⟩
    · rintro c _ ⟨rfl, -⟩
      rfl
    · rintro e _ ⟨rfl, he⟩
      exact ⟨rfl, hargument e he⟩
    · intro overloads hname o ho
      exact (hoverloads overloads hname o ho).buildsAlike name span
  exact relates_self_iff.mp hrelates context hcontext

/-- A plan asks only for expressions of nodes with a property. -/
def Plan.Asks (N : Node → Prop) : Plan → Prop
  | .finish _ | .fail _ => True
  | .resolve n _ next => (∀ m ∈ n.postorder, N m) ∧ ∀ result, (next result).Asks N
  | .pushTimestampRequired _ next | .popTimestampRequired next => next.Asks N
  | .inspect next => ∀ c, (next c).Asks N

theorem Plan.asks_true (plan : Plan) : plan.Asks fun _ => True := by
  induction plan with
  | finish | fail => trivial
  | resolve n schema next ih => exact ⟨fun _ _ => trivial, ih⟩
  | pushTimestampRequired required next ih => exact ih
  | popTimestampRequired next ih => exact ih
  | inspect next ih => exact ih

theorem Plan.Asks.mono {N N' : Node → Prop} {plan : Plan} (h : plan.Asks N)
    (hN : ∀ n, N n → N' n) : plan.Asks N' := by
  induction plan with
  | finish | fail => trivial
  | resolve n schema next ih => exact ⟨fun m hm => hN m (h.1 m hm), fun result => ih result (h.2 result)⟩
  | pushTimestampRequired required next ih => exact ih h
  | popTimestampRequired next ih => exact ih h
  | inspect next ih => exact fun c => ih c (h c)

/-- A plan does alike with itself. -/
theorem Plan.Asks.alike {I : Context → Prop} {N : Node → Prop} {J : Schema → Evaluator → Prop}
    {plan : Plan} (h : plan.Asks N) :
    plan.Alike (SameContext I) N (fun schema _ => SameEvaluator (J schema)) plan := by
  induction plan with
  | finish schema => exact .finish schema
  | fail e => exact .fail e
  | resolve n schema next ih =>
    refine .resolve h.1 ?_
    intro result result' hresult
    have hsame := (hresult.mono fun _ _ hsame => hsame.1).eq
    rw [← hsame]
    exact ih result (h.2 result)
  | pushTimestampRequired required next ih => exact .pushTimestampRequired required (ih h)
  | popTimestampRequired next ih => exact .popTimestampRequired (ih h)
  | inspect next ih =>
    refine .inspect ?_
    rintro c _ ⟨rfl, -⟩
    exact ih c (h c)

namespace Resolver

/-- A resolver keeps an invariant of contexts at each node with a property, and its evaluators have
a property that may depend on the schema of their rows. -/
structure Maintains (I : Context → Prop) (N : Node → Prop) (J : Schema → Evaluator → Prop)
    (r : Resolver) : Prop where
  arguments : ∀ schema, Maintained I (J schema)
  pushTimestampRequired : ∀ {c} (required : Bool), I c → I (c.pushTimestampRequired required)
  popTimestampRequired : ∀ {c}, I c → I c.popTimestampRequired
  column : ∀ {schema : Schema} {i label}, (schema.type i).isUndefined = false →
    J schema (.column i (schema.type i) label)
  link : ∀ {schema n c e}, N n → n.args = [] → n.kind = .bindVariable → I c →
    Link.ofNode c n.span n.token = .ok e → J schema e
  cursor : ∀ schema records, J schema (.cursor records)
  overloads : ∀ schema name overloads, r.catalog.overloads? name = some overloads →
    ∀ o ∈ overloads, o.Maintains I (J schema) (J schema) r.settings

theorem Maintains.nodesAlike {I : Context → Prop} {N : Node → Prop}
    {J : Schema → Evaluator → Prop} {r : Resolver} (h : r.Maintains I N J) :
    NodesAlike (SameContext I) N (fun schema _ => SameEvaluator (J schema)) r r where
  pushTimestampRequired := by
    rintro c _ required ⟨rfl, hI⟩
    exact ⟨rfl, h.pushTimestampRequired required hI⟩
  popTimestampRequired := by
    rintro c _ ⟨rfl, hI⟩
    exact ⟨rfl, h.popTimestampRequired hI⟩
  kind := by
    rintro schema n e _ ⟨rfl, -⟩
    rfl
  literal hliteral := ⟨rfl, (h.arguments _).literal hliteral⟩
  column hdefined := ⟨rfl, h.column hdefined⟩
  link := by
    rintro schema n c _ hn hargs hkind ⟨rfl, hI⟩
    exact .refl fun e he => ⟨rfl, h.link hn hargs hkind hI he⟩
  cursor schema n records := ⟨rfl, h.cursor schema records⟩
  call := by
    intro schema n es es' _ _ haligned
    refine r.catalog.relates_resolve (fun _ => (h.arguments schema).uniform) ?_
      (fun _ _ hfirst => hfirst) ?_ ⟨rfl, haligned.aligned fun _ _ _ _ _ hsame => hsame⟩
    · rintro c _ ⟨rfl, -⟩
      rfl
    · intro overloads hname o ho
      exact (h.overloads schema n.token overloads hname o ho).buildsAlike n.token n.span

/-- A walk keeps the invariant, also where it fails, and answers an evaluator with the property. -/
theorem Maintains.resolve {I : Context → Prop} {N : Node → Prop} {J : Schema → Evaluator → Prop}
    {r : Resolver} (h : r.Maintains I N J) {root : Node} (hroot : ∀ m ∈ root.postorder, N m)
    (hplans : ∀ compiler ∈ r.compilers, ∀ text, (compiler text).Asks N) (schema : Schema)
    {w : Walk} (hI : I w.context) :
    I (r.resolve root schema w).2.context ∧
      ∀ e, (r.resolve root schema w).1 = .ok e → J schema e := by
  have hrelates := h.nodesAlike.relates_resolve hroot rfl
    (fun compiler hmem text => (hplans compiler hmem text).alike) schema
  obtain ⟨hresult, -, hcontext⟩ := hrelates w w ⟨rfl, hI⟩
  refine ⟨hcontext, ?_⟩
  intro e he
  rw [he] at hresult
  cases hresult with
  | ok related => exact related.2

/-- The parts of a walk keep the invariant. -/
theorem Maintains.resolveTree {I : Context → Prop} {N : Node → Prop}
    {J : Schema → Evaluator → Prop} {r : Resolver} (h : r.Maintains I N J) {compilers : List Compiler}
    (hplans : ∀ compiler ∈ compilers, ∀ text, (compiler text).Asks N) (schema : Schema) (n : Node)
    (hn : ∀ m ∈ n.postorder, N m) {s : Effects} (hI : I s.context) :
    I (r.resolveTree (r.queryOf compilers) schema n s).2.context := by
  have hqueries := h.nodesAlike.relates_queryOf
    fun compiler hmem text => (hplans compiler hmem text).alike
  exact (h.nodesAlike.relates_resolveTree schema (fun n _ => hqueries schema n) n hn s s
    ⟨rfl, hI⟩).2.2

theorem Maintains.resolveTrees {I : Context → Prop} {N : Node → Prop}
    {J : Schema → Evaluator → Prop} {r : Resolver} (h : r.Maintains I N J) {compilers : List Compiler}
    (hplans : ∀ compiler ∈ compilers, ∀ text, (compiler text).Asks N) (schema : Schema)
    (ns : List Node) (hns : ∀ m ∈ Node.postorders ns, N m) {s : Effects} (hI : I s.context) :
    I (r.resolveTrees (r.queryOf compilers) schema ns s).2.context := by
  have hqueries := h.nodesAlike.relates_queryOf
    fun compiler hmem text => (hplans compiler hmem text).alike
  exact (h.nodesAlike.relates_resolveTrees schema (fun n _ => hqueries schema n) ns hns s s
    ⟨rfl, hI⟩).2.2

end Resolver
end SqlResolution
