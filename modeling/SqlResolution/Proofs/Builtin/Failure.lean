import SqlResolution.Proofs.Builtin.Casting
import SqlResolution.Proofs.Builtin.TypeSoundness
import SqlResolution.Proofs.Walk.Failure

/-!
# Where trees over the builtins fail

A builtin that cannot be built points at its call, or at the operand that it cannot convert, and
what is built has a type. So an error of a tree points into the call that fails, and no tree fails
for a reason of the resolver's own where it holds no subquery.
-/
namespace SqlResolution

open Steps

namespace Builtin

variable {b : Builtin} {binds : BindTable} {type : ColumnType} {span position : Span}
  {positions : List Span} {args : Args} {settings : Settings} {c : Context} {e : Evaluator}
  {err : ResolveError}

/-! ### What a builtin blames -/

/-- Text that is to be a geohash may be none. Else an operand is converted to any type, or stays. -/
theorem span?_of_convertOperand (h : convertOperand binds type e position = .error err) :
    err.span? = some position := by
  unfold convertOperand at h
  split at h
  · cases h
  · have hcast := error_of_map (error_of_map h)
    unfold implicitCast at hcast
    split at hcast
    · cases hcast
    · split at hcast
      · have hread := error_of_map hcast
        unfold readConstantGeohash at hread
        split at hread
        · cases hread
        · split at hread
          · cases hread
          · cases hread
            rfl
      · cases hcast

theorem span?_of_convertOperands {operands : List (Evaluator × Span)}
    (h : convertOperands binds type operands = .error err) :
    ∃ operand ∈ operands, err.span? = some operand.2 := by
  induction operands with
  | nil => cases h
  | cons operand operands ih =>
    obtain ⟨e, position⟩ := operand
    rw [convertOperands] at h
    cases hfirst : convertOperand binds type e position with
    | error error =>
      rw [hfirst] at h
      cases h
      exact ⟨(e, position), List.mem_cons_self, span?_of_convertOperand hfirst⟩
    | ok converted =>
      rw [hfirst] at h
      cases hrest : convertOperands binds type operands with
      | error error =>
        rw [hrest] at h
        cases h
        obtain ⟨operand, hmem, hspan⟩ := ih hrest
        exact ⟨operand, List.mem_cons_of_mem _ hmem, hspan⟩
      | ok rest =>
        rw [hrest] at h
        cases h

theorem pointsInto_buildKernel {k : Kernel} (h : buildKernel binds k args = .error err)
    (span : Span) :
    err.PointsInto span args.positions := by
  unfold buildKernel at h
  split at h
  · obtain ⟨operand, hmem, hspan⟩ := span?_of_convertOperands (error_of_map h)
    exact ⟨operand.2, hspan, .inr (List.of_mem_zip hmem).2⟩
  · cases h

theorem span?_of_listTexts {es : List Evaluator} (h : listTexts binds span es = .error err) :
    err.span? = some span := by
  induction es with
  | nil => cases h
  | cons e es ih =>
    have hrest : ∀ text : Option String,
        (listTexts binds span es >>= fun rest =>
          .ok (text.toList ++ rest.1, rest.2 || text.isNone)) = .error err →
        err.span? = some span := by
      intro text h
      cases hlist : listTexts binds span es with
      | error error =>
        rw [hlist] at h
        cases h
        exact ih hlist
      | ok rest =>
        rw [hlist] at h
        cases h
    rw [listTexts] at h
    split at h
    · exact hrest _ h
    · exact hrest _ h
    · split at h
      · exact hrest _ h
      · cases h
        rfl

/-- A builtin that cannot be built blames its call or an operand of it. -/
theorem pointsInto_build (h : b.build span args settings c = .error err) :
    err.PointsInto span args.positions := by
  have hspan : err.span? = some span → err.PointsInto span args.positions :=
    fun hs => ⟨span, hs, .inl rfl⟩
  have hunary : ∀ make : Evaluator → Evaluator, buildUnary make span args = .error err →
      err.PointsInto span args.positions := by
    intro make h
    unfold buildUnary at h
    split at h
    · cases h
    · cases h
      exact hspan rfl
  cases b with
  | kernel k => exact pointsInto_buildKernel h span
  | varcharLength =>
    have hlength : buildKernel c.table .length args = .error err := h
    exact pointsInto_buildKernel hlength span
  | cast source target =>
    simp only [build, buildCast] at h
    split at h
    · split at h <;> cases h
    · cases h
      exact hspan rfl
  | member =>
    simp only [build, buildMember] at h
    split at h
    · cases h
      exact hspan rfl
    · exact hspan (span?_of_listTexts (error_of_map h))
  | total which => exact hunary (.total which .zero) h
  | runningAverage => exact hunary (.runningAverage 0 0) h
  | concat | randomInt | randomDouble | now | count | rowNumber | rank => cases h

/-! ### What a builtin makes -/

theorem isUndefined_resultType (k : Kernel) : k.resultType.isUndefined = false := by
  have hkind : ∀ kind : NumberKind, kind.type.isUndefined = false := by
    intro kind
    cases kind <;> rfl
  cases k with
  | arithmetic op kind => exact hkind kind
  | negate kind => exact hkind kind
  | magnitude kind => exact hkind kind
  | equal _ | less _ | conjunction | disjunction | negation | length | upper => rfl

/-- What is built has a type. -/
theorem isUndefined_of_build (hb : b ∈ all) (h : b.build span args settings c = .ok e) :
    e.isUndefined = false := by
  cases makes_of_build h with
  | kernel k | converted k => exact isUndefined_resultType k
  | nullCast source target | cast source target => exact isUndefined_target hb
  | total which => cases which <;> rfl
  | varcharLength | concat | member | randomInt | randomDouble | now | count | rowNumber | rank
  | runningAverage => rfl

end Builtin

namespace Resolver

open Builtin

variable (settings : Settings) (compilers : List Compiler)

theorem blames_builtins : (Resolver.mk Builtin.catalog settings compilers).Blames := by
  intro name overloads hname o ho span args c err h
  obtain ⟨b, -, rfl, -⟩ := exists_of_mem_overloads hname ho
  exact pointsInto_build (error_of_map h)

theorem takesTypes_builtins : (Resolver.mk Builtin.catalog settings compilers).TakesTypes where
  arguments _ := maintained_takesType
  pushTimestampRequired _ _ := trivial
  popTimestampRequired _ := trivial
  column hdefined := .of_defined hdefined
  link := by
    intro schema n c e _ _ _ _ he _
    obtain ⟨x, -, rfl⟩ := Link.ofNode_ok he
    exact ⟨x, Evaluator.linked?_link _ x⟩
  cursor _ _ := .of_defined rfl
  overloads := by
    intro schema name overloads hname o ho span args c e _ _ hbuild
    obtain ⟨b, hb, rfl, -⟩ := exists_of_mem_overloads hname ho
    refine .of_defined ?_
    rw [Evaluator.isUndefined, Evaluator.type_finish]
    exact isUndefined_of_build hb (build_of_factory hbuild)

end Resolver

namespace Builtin

variable {compilers : List Compiler} {root : Node} {schema : Schema} {w : Walk}

/-- A tree over the builtins and without subqueries fails at the first node, in the order of visits,
that cannot be resolved. The span of the error is that of the node or of one of its arguments. -/
theorem span_of_resolve (hqueries : ∀ n ∈ root.postorder, ¬ n.IsSubquery)
    (h : ((Resolver.mk catalog settings compilers).resolve root schema w).1 = .error err)
    (hspan : err.span? = some span) :
    ∃ n before,
      (Resolver.mk catalog settings compilers).FailsAt compilers root schema w n before err ∧
      (∀ m before' err', (Resolver.mk catalog settings compilers).FailsAt compilers root schema w m
        before' err' → m = n) ∧
      (span = n.span ∨ ∃ child ∈ n.args, span = child.span) := by
  obtain ⟨n, before, hat, hplace⟩ := Resolver.exists_failsAt_of_span
    (Resolver.blames_builtins settings compilers) (Resolver.takesTypes_builtins settings compilers)
    hqueries h hspan
  exact ⟨n, before, hat, fun m before' err' hat' => (hat'.unique hat).1, hplace⟩

/-- The tree of `not(1)`. -/
def negatedNumber : Node := ⟨.function, "not", ⟨0, 3⟩, [⟨.constant, "1", ⟨4, 1⟩, [], none⟩], none⟩

/-- The call `not(1)` is blamed on its argument. -/
theorem span_of_resolve_negatedNumber :
    let r : Resolver := ⟨catalog, .default, []⟩
    let w : Walk := .idle (.fresh 0)
    let error : ResolveError := .argumentMismatch "not" 1
      (.wrongArgument 1 (some ⟨0, ⟨.boolean, false⟩, .int⟩)) ⟨4, 1⟩
    (∀ n ∈ negatedNumber.postorder, ¬ n.IsSubquery) ∧
      (r.resolve negatedNumber .empty w).1 = .error error ∧ error.span? = some ⟨4, 1⟩ ∧
      ∃ n before, r.FailsAt [] negatedNumber .empty w n before error ∧
        (∀ m before' error', r.FailsAt [] negatedNumber .empty w m before' error' → m = n) ∧
        ((⟨4, 1⟩ : Span) = n.span ∨ ∃ child ∈ n.args, (⟨4, 1⟩ : Span) = child.span) := by
  intro r w error
  have hname : catalog.overloads? "not" = some [(kernel .negation).overload] :=
    overloads?_of_filter (List.cons_ne_nil (kernel .negation) []) (by decide +kernel)
  have hqueries : ∀ n ∈ negatedNumber.postorder, ¬ n.IsSubquery := by decide
  have hcall : catalog.resolve .default "not" ⟨0, 3⟩ ⟨[.constant .int (.int 1)], [⟨4, 1⟩]⟩
      (.fresh 0) = (.error error, .fresh 0) := by
    rw [Catalog.resolve_eq hname]
    rfl
  have hresolve : r.resolve negatedNumber .empty w = (.error error, w) :=
    Resolver.resolve_of_args (List.cons_ne_nil _ _) rfl rfl hcall
  have hfails : (r.resolve negatedNumber .empty w).1 = .error error := by rw [hresolve]
  exact ⟨hqueries, hfails, rfl, span_of_resolve hqueries hfails rfl⟩

/-- A tree over the builtins fails with a fault of the resolver's own only at a subquery: one
without text or compiler, or one whose compiler reports the fault, of itself or after such a subquery
inside. An argument that a call finds without a type is a variable, which can be given one. -/
theorem fault_of_resolve (settings : Settings) (compilers : List Compiler) (root : Node)
    (schema : Schema) (w : Walk) :
    (∀ fault, ((Resolver.mk catalog settings compilers).resolve root schema w).1 =
        .error (.internal fault) →
      ∃ n before, (Resolver.mk catalog settings compilers).FailsAt compilers root schema w n before
          (.internal fault) ∧ n.IsSubquery ∧
        (Resolver.mk catalog settings compilers).QueryFault compilers n before fault) ∧
      ∀ n es, (Resolver.mk catalog settings compilers).ComesTo root schema w n es →
        ∀ e ∈ es, e.isUndefined = true → ∃ x, e.linked? = some x := by
  have hblames := Resolver.blames_builtins settings compilers
  have htakes := Resolver.takesTypes_builtins settings compilers
  refine ⟨fun fault h => Resolver.exists_queryFault hblames htakes h, ?_⟩
  intro n es hcomes
  obtain ⟨horder, hvisits, htop⟩ := hcomes
  obtain ⟨base, resolved, rfl, hlength, htyped⟩ :=
    Resolver.exists_arguments_of_visits htakes horder hvisits
  rw [Walk.top_pushAll base hlength (List.length_map ..)] at htop
  subst htop
  exact htyped

/-- A node that stands for a query with a text. -/
def queryNode (text : String) : Node := ⟨.query, "select", .none, [], some text⟩

/-- The compiler that resolves the query `inner` for the query `outer`. -/
def nestingCompiler : Compiler := .ofTable [("outer", .empty, [queryNode "inner"])]

/-- The query `inner` finds no compiler left, and the compiler of the query `outer` passes its fault
on. The call `abs($1)` finds its argument without a type. -/
theorem fault_of_resolve_nestedQuery :
    let r : Resolver := ⟨catalog, .default, [nestingCompiler]⟩
    let w : Walk := .idle (.fresh 0)
    let call : Node := ⟨.function, "abs", ⟨0, 3⟩, [⟨.bindVariable, "$1", ⟨4, 2⟩, [], none⟩], none⟩
    let link : Evaluator := .slotLink 0 .undefined
    (r.resolve (queryNode "outer") .empty w).1 = .error (.internal .noCompiler) ∧
      (∃ n before, r.FailsAt [nestingCompiler] (queryNode "outer") .empty w n before
          (.internal .noCompiler) ∧ n.IsSubquery ∧
        r.QueryFault [nestingCompiler] n before .noCompiler) ∧
      r.ComesTo call .empty w call [link] ∧ link.isUndefined = true ∧
      ∃ x, link.linked? = some x := by
  intro r w call link
  have hfails : (r.resolve (queryNode "outer") .empty w).1 = .error (.internal .noCompiler) := by
    rw [Resolver.resolve, Resolver.walk_query_eq]
    rfl
  have hcomes : r.ComesTo call .empty w call [link] :=
    Resolver.comesTo_of_resolveTrees (t := w.effects) rfl
  exact ⟨hfails, (fault_of_resolve .default [nestingCompiler] (queryNode "outer") .empty w).1
    .noCompiler hfails, hcomes, rfl, (fault_of_resolve .default [nestingCompiler] call .empty w).2
    call [link] hcomes link List.mem_cons_self rfl⟩

/-- A query with a text and a compiler fails with a fault of the resolver's own where the compiler
reports one. -/
theorem not_only_unmodelled_faults :
    let r : Resolver := ⟨catalog, .default, [.ofTable []]⟩
    let n : Node := queryNode "x"
    r.compilers ≠ [] ∧ n.query ≠ none ∧
      (r.resolve n .empty (.idle (.fresh 0))).1 =
        .error (.internal (.reported "no such query")) := by
  intro r n
  refine ⟨List.cons_ne_nil _ _, Option.some_ne_none _, ?_⟩
  rw [Resolver.resolve, Resolver.walk_query_eq]
  rfl

end Builtin
end SqlResolution
