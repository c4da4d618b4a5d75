import SqlResolution.Proofs.Walk.Calls
import SqlResolution.Proofs.Walk.Settling

/-!
# What a context allows

A context that allows nothing non-deterministic keeps it out of a whole tree: nothing that the tree
resolves to may differ between two evaluations of a row.
-/
namespace SqlResolution

open Steps

/-- A link to a variable is the same throughout an execution. -/
theorem Evaluator.isNonDeterministic_of_linked? {x : Variable} {e : Evaluator}
    (h : e.linked? = some x) : e.isNonDeterministic = false := by
  induction isLinkTo_of_linked? h with
  | link => cases x <;> rfl
  | memo _ _ ih => exact ih h

/-- An evaluator that stays the same on a row stays so when it is evaluated or wrapped. -/
theorem Evaluator.passes_deterministic : Passes fun e => e.isNonDeterministic = false where
  atom {e} h := by
    cases e <;> first | rfl | cases h
  eval b row h := by
    rw [isNonDeterministic, traits_eval]
    exact h
  adapt _ _ _ h := h
  memo _ h := h

/-- The context allows the evaluator to differ between evaluations, or it does not differ. -/
def Evaluator.Allowed (allows : Bool) (e : Evaluator) : Prop :=
  (!allows && e.isNonDeterministic) = false

variable {allows : Bool}

theorem Evaluator.allowed_of_deterministic {e : Evaluator} (h : e.isNonDeterministic = false) :
    e.Allowed allows := by
  rw [Allowed, h, Bool.and_false]

/-- Preparing arguments makes nothing non-deterministic. -/
theorem maintained_allowed (allows : Bool) :
    Maintained (fun c => c.allowNonDeterministic = allows) (Evaluator.Allowed allows) where
  literal hliteral := by
    cases hliteral with
    | constant => exact Evaluator.allowed_of_deterministic rfl
    | typeName => exact Evaluator.allowed_of_deterministic rfl
  evalConstant := by
    intro c e _ h _
    rw [Evaluator.Allowed, Evaluator.isNonDeterministic, Evaluator.evalConstant,
      Evaluator.traits_eval]
    exact h
  assignType := by
    intro c e e' b type hI _ _ hassign
    obtain ⟨x, -, hx, -, -⟩ := Evaluator.assignType_ok hassign
    exact ⟨Evaluator.allowed_of_deterministic (Evaluator.isNonDeterministic_of_linked? hx), hI⟩
  adapt h _ := h

/-- What an overload makes is checked before it is used. -/
theorem Overload.allowed_of_create {o : Overload} {settings : Settings} {name : String}
    {span : Span} {args : Args} {c c' : Context} {e : Evaluator}
    (h : o.create settings name span args c = (.ok e, c')) : e.Allowed c.allowNonDeterministic := by
  obtain ⟨-, built, -, hallowed, rfl⟩ := create_ok h
  cases hforbids : c.allowNonDeterministic with
  | true => rfl
  | false =>
    refine Evaluator.allowed_of_deterministic (Bool.eq_false_of_not_eq_true fun hrandom => ?_)
    rw [hforbids, Evaluator.isNonDeterministic_finish hrandom] at hallowed
    cases hallowed

theorem Catalog.allowNonDeterministic_of_resolve {cat : Catalog} {settings : Settings}
    {name : String} {span : Span} {args : Args} {c c' outer : Context} {e : Evaluator}
    (h : cat.resolve settings name span args c = (.ok e, c')) (hbounds : c.bounds = outer.bounds) :
    c'.allowNonDeterministic = outer.allowNonDeterministic := by
  have hkept := cat.bounds_resolve settings name span args c
  rw [h, hbounds] at hkept
  exact congrArg Prod.fst hkept

namespace Resolver

variable {r : Resolver} {root : Node} {schema : Schema} {w after : Walk} {e : Evaluator}

/-- A tree resolves to an evaluator that the context allows, and the context goes on to allow what it
allowed. -/
theorem allowed_of_resolve (h : r.resolve root schema w = (.ok e, after)) :
    after.context.allowNonDeterministic = w.context.allowNonDeterministic ∧
      e.Allowed w.context.allowNonDeterministic := by
  have hcall : ∀ name span args c c' e, c.bounds = w.context.bounds →
      (∀ arg ∈ args.evaluators, arg.Allowed w.context.allowNonDeterministic) →
        r.catalog.resolve r.settings name span args c = (.ok e, c') →
          e.Allowed w.context.allowNonDeterministic := by
    intro name span args c c' e hbounds hargs hresolve
    obtain ⟨-, hoperand | ⟨overloads, o, adjusted, -, -, -, hcreate⟩⟩ :=
      (maintained_allowed w.context.allowNonDeterministic).course hargs
        (congrArg Prod.fst hbounds) (Catalog.course_of_resolve hresolve)
    · exact hoperand
    · rw [← Catalog.allowNonDeterministic_of_resolve hresolve hbounds]
      exact Overload.allowed_of_create hcreate
  obtain ⟨hbounds, hallowed⟩ := forall_of_resolve
    (fun e hatom => Evaluator.allowed_of_deterministic (Evaluator.passes_deterministic.atom hatom))
    hcall h
  exact ⟨congrArg Prod.fst hbounds, hallowed⟩

end Resolver

/-- An overload builds its evaluators over the arguments that it is given. What it builds is made of
the arguments, or has arguments that are. -/
def Overload.BuildsOverArguments (settings : Settings) (o : Overload) : Prop :=
  ∀ span args c e, o.factory.build span args settings c = .ok (some e) →
    e.MadeOver args.evaluators ∨ ∀ arg ∈ e.args, arg.MadeOver args.evaluators

def Catalog.BuildsOverArguments (c : Catalog) (settings : Settings) : Prop :=
  ∀ name overloads, c.overloads? name = some overloads → ∀ o ∈ overloads,
    o.BuildsOverArguments settings

theorem Catalog.buildsOverArguments_of_single {settings : Settings} {name : String} {o : Overload}
    (h : o.BuildsOverArguments settings) :
    (Catalog.mk [(name, [o])] []).BuildsOverArguments settings := by
  intro name' overloads hname o' ho
  unfold overloads? at hname
  rw [List.lookup_cons] at hname
  split at hname
  · cases hname
    rwa [List.mem_singleton.mp ho]
  · cases hname

/-- Where no evaluator of the arguments is random and the context allows none that is, none is below
what an overload builds over the arguments. -/
theorem Overload.BuildsOverArguments.deterministic {o : Overload} {settings : Settings}
    {name : String} {span : Span} {args : Args} {c c' : Context} {e : Evaluator}
    (h : o.BuildsOverArguments settings)
    (hargs : ∀ arg ∈ args.evaluators, arg.AllNodes fun n => n.isNonDeterministic = false)
    (hforbids : c.allowNonDeterministic = false)
    (hcreate : o.create settings name span args c = (.ok e, c')) :
    e.AllNodes fun n => n.isNonDeterministic = false := by
  obtain ⟨-, built, hbuild, hallowed, rfl⟩ := create_ok hcreate
  have hroot : built.isNonDeterministic = false := by
    rwa [hforbids, Bool.not_false, Bool.true_and] at hallowed
  refine Evaluator.AllNodes.finish Evaluator.passes_deterministic ?_ settings c.table
  obtain hmade | hmade := h span args c built hbuild
  · exact hmade.allNodes Evaluator.passes_deterministic hargs
  · exact Evaluator.allNodes_iff.mpr ⟨hroot, fun arg harg =>
      (hmade arg harg).allNodes Evaluator.passes_deterministic hargs⟩

/-- A context that allows nothing non-deterministic keeps it out of a whole tree, where factories
build over the arguments that they are given. -/
theorem Resolver.deterministic_of_resolve {r : Resolver} {root : Node} {schema : Schema}
    {w after : Walk} {e : Evaluator} (hbuilds : r.catalog.BuildsOverArguments r.settings)
    (hforbids : w.context.allowNonDeterministic = false)
    (h : r.resolve root schema w = (.ok e, after)) :
    ∀ n ∈ e.nodes, n.isNonDeterministic = false := by
  refine (forall_of_resolve (J := Evaluator.AllNodes fun n => n.isNonDeterministic = false)
    (fun e => .atom Evaluator.passes_deterministic) ?_ h).2
  intro name span args c c' e hbounds hargs hresolve
  obtain ⟨-, hoperand | ⟨overloads, o, adjusted, hfound, ho, hadjusted, hcreate⟩⟩ :=
    Evaluator.passes_deterministic.maintained.course hargs trivial
      (Catalog.course_of_resolve hresolve)
  · exact hoperand
  · exact (hbuilds name overloads hfound o ho).deterministic hadjusted
      ((Catalog.allowNonDeterministic_of_resolve hresolve hbounds).trans hforbids) hcreate

/-- A function of a STRING that answers null. -/
def textFunction : Overload :=
  ⟨⟨"f", [⟨.string, false⟩], none⟩,
    { (default : Factory) with
      build := fun _ args _ _ => .ok (some
        (.custom ⟨"f", .long, .none, .scalar, fun _ _ => .null⟩ 0 args.evaluators)) }⟩

/-- A context that allows nothing non-deterministic. -/
def strict : Context := { Context.fresh 0 with allowNonDeterministic := false }

theorem buildsOverArguments_textFunction :
    (Catalog.mk [("f", [textFunction])] []).BuildsOverArguments .default := by
  refine Catalog.buildsOverArguments_of_single fun span args c e hbuild => ?_
  cases hbuild
  exact .inr fun arg harg => .given harg

/-- The call `f(u)` of a function of a STRING and a UUID, whose text is written by an adapter. -/
theorem Resolver.deterministic_of_resolve_textFunction :
    let r : Resolver := ⟨⟨[("f", [textFunction])], []⟩, .default, []⟩
    let root : Node := ⟨.function, "f", ⟨0, 1⟩, [⟨.column, "u", ⟨2, 1⟩, [], none⟩], none⟩
    let e : Evaluator := .custom ⟨"f", .long, .none, .scalar, fun _ _ => .null⟩ 0
      [.adapt .uuidToStr .uuid .string (.column 0 .uuid "u")]
    r.catalog.BuildsOverArguments r.settings ∧ strict.allowNonDeterministic = false ∧
      r.resolve root (.ofColumns [.plain "u" .uuid]) (.idle strict) = (.ok e, .idle strict) ∧
      e.nodes.length = 3 ∧ ∀ n ∈ e.nodes, n.isNonDeterministic = false := by
  intro r root e
  have hresolve : r.resolve root (.ofColumns [.plain "u" .uuid]) (.idle strict) =
      (.ok e, .idle strict) := resolve_of_ok (t := (Walk.idle strict).effects) rfl
  exact ⟨buildsOverArguments_textFunction, rfl, hresolve, rfl,
    deterministic_of_resolve buildsOverArguments_textFunction rfl hresolve⟩

end SqlResolution
