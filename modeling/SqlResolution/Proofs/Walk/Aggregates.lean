import SqlResolution.Proofs.Walk.Determinacy
import SqlResolution.Proofs.Walk.Reentrancy

/-!
# Aggregates stand at the root

A call takes no aggregate among its arguments, so an aggregate can only be what a whole tree resolves
to. A visit that finds aggregates fails at the last of them, and the walk fails with it.
-/
namespace SqlResolution

open Steps

namespace Node

/-- A member of two lists one after the other stands in the first or in the second. -/
theorem append_eq_append_cons {α : Type} {as bs xs rest : List α} {a : α}
    (h : as ++ bs = xs ++ a :: rest) :
    (∃ inner, as = xs ++ a :: inner) ∨ ∃ inner, xs = as ++ inner ∧ bs = inner ++ a :: rest := by
  obtain ⟨inner, hxs, hbs⟩ | ⟨inner, has, hbs⟩ := List.append_eq_append_iff.mp h
  · exact .inr ⟨inner, hxs, hbs⟩
  · cases inner with
    | nil => exact .inr ⟨[], by rw [has, List.append_nil, List.append_nil], hbs.symm⟩
    | cons first inner =>
      obtain ⟨rfl, -⟩ := List.cons.inj hbs
      exact .inl ⟨inner, has⟩

mutual

/-- The nodes before a node in the order of visits end with those of its arguments. -/
theorem exists_args_of_postorder {n : Node} {rest : List Node} :
    (root : Node) → (visited : List Node) → root.postorder = visited ++ n :: rest →
      ∃ earlier, visited = earlier ++ postorders n.args
  | ⟨kind, token, span, args, text⟩, visited, horder => by
    rw [postorder] at horder
    obtain ⟨inner, hinner⟩ | ⟨inner, rfl, hroot⟩ := append_eq_append_cons horder
    · exact exists_args_of_postorders args visited hinner
    · obtain ⟨rfl, hroot⟩ | ⟨-, hnil⟩ := List.singleton_eq_append_iff.mp hroot
      · cases hroot
        exact ⟨[], by rw [List.append_nil, List.nil_append]⟩
      · cases hnil

theorem exists_args_of_postorders {n : Node} {rest : List Node} :
    (roots : List Node) → (visited : List Node) → postorders roots = visited ++ n :: rest →
      ∃ earlier, visited = earlier ++ postorders n.args
  | [], visited, horder => by
    obtain ⟨-, hcons⟩ := List.append_eq_nil_iff.mp horder.symm
    cases hcons
  | root :: roots, visited, horder => by
    rw [postorders] at horder
    obtain ⟨inner, hinner⟩ | ⟨inner, rfl, hrest⟩ := append_eq_append_cons horder
    · exact exists_args_of_postorder root visited hinner
    · obtain ⟨earlier, rfl⟩ := exists_args_of_postorders roots inner hrest
      exact ⟨root.postorder ++ earlier, (List.append_assoc ..).symm⟩

end

end Node

namespace Evaluator

/-- Evaluation makes no aggregate and no window function. -/
theorem kind_eval (b : BindTable) (row : Row) : (e : Evaluator) → (e.eval b row).2.kind = e.kind
  | memo cache inner => by
    rw [eval]
    split
    · rfl
    · exact kind_eval b row inner
  | constant _ _ | typeName _ | column _ _ _ | slotLink _ _ | namedLink _ _ | adapt _ _ _ _
  | scalar _ _ | concat _ _ | member _ _ _ | cast _ _ _ | cursor _ | count _ | total _ _ _
  | rowNumber _ | rank | runningAverage _ _ _ | randomInt _ | randomDouble _ | now _
  | custom _ _ _ => by simp only [eval, kind]

/-- An evaluator that is no aggregate stays none when it is evaluated or wrapped. -/
theorem passes_notAggregate : Passes fun e => e.kind ≠ .groupBy where
  atom {e} h := by
    cases e <;> first | exact EvaluatorKind.noConfusion | cases h
  eval b row h := by rwa [kind_eval]
  adapt _ _ _ _ := EvaluatorKind.noConfusion
  memo _ h := h

/-- No aggregate stands below the root. -/
def Capped (e : Evaluator) : Prop := ∀ arg ∈ e.args, arg.AllNodes fun n => n.kind ≠ .groupBy

theorem AllNodes.capped {e : Evaluator} (h : e.AllNodes fun n => n.kind ≠ .groupBy) : e.Capped :=
  h.args

theorem capped_of_isAtom {e : Evaluator} (h : e.isAtom = true) : e.Capped :=
  (AllNodes.atom passes_notAggregate h).capped

namespace Capped

variable {e : Evaluator}

theorem allNodes (h : e.Capped) (hroot : e.kind ≠ .groupBy) :
    e.AllNodes fun n => n.kind ≠ .groupBy :=
  allNodes_iff.mpr ⟨hroot, h⟩

theorem eval (h : e.Capped) (b : BindTable) (row : Row) : (e.eval b row).2.Capped := by
  intro evaluated hmem
  obtain hargs | hargs := args_eval b row e
  · rw [hargs] at hmem
    exact h evaluated hmem
  · rw [hargs] at hmem
    obtain ⟨arg, harg, rfl⟩ := List.mem_map.mp hmem
    exact (h arg harg).eval passes_notAggregate b row

/-- Only the results of what is no aggregate are kept. -/
theorem finish (h : e.Capped) (settings : Settings) (b : BindTable) :
    (e.finish settings b).Capped := by
  have hfinish := finishes_finish settings b e
  generalize e.finish settings b = r at hfinish ⊢
  cases hfinish with
  | folded => exact capped_of_isAtom rfl
  | evaluated => exact h.eval b .empty
  | memoized _ memoizes =>
    have hroot : e.kind ≠ .groupBy := by
      rw [memoizes.kind]
      exact nofun
    exact ((h.allNodes hroot).memo passes_notAggregate none).capped
  | unfoldable | unchanged => exact h

end Capped
end Evaluator

theorem Overload.BuildsOverArguments.capped {o : Overload} {settings : Settings} {name : String}
    {span : Span} {args : Args} {c c' : Context} {e : Evaluator}
    (h : o.BuildsOverArguments settings)
    (hargs : ∀ arg ∈ args.evaluators, arg.AllNodes fun n => n.kind ≠ .groupBy)
    (hcreate : o.create settings name span args c = (.ok e, c')) : e.Capped := by
  obtain ⟨-, built, hbuild, -, rfl⟩ := create_ok hcreate
  refine Evaluator.Capped.finish ?_ settings c.table
  obtain hmade | hmade := h span args c built hbuild
  · exact (hmade.allNodes Evaluator.passes_notAggregate hargs).capped
  · exact fun arg harg => (hmade arg harg).allNodes Evaluator.passes_notAggregate hargs

/-- A call puts nothing but what it takes below the root. -/
theorem Catalog.BuildsOverArguments.capped {cat : Catalog} {settings : Settings} {name : String}
    {span : Span} {args : Args} {c c' : Context} {e : Evaluator}
    (h : cat.BuildsOverArguments settings)
    (hargs : ∀ arg ∈ args.evaluators, arg.AllNodes fun n => n.kind ≠ .groupBy)
    (hresolve : cat.resolve settings name span args c = (.ok e, c')) : e.Capped := by
  obtain ⟨-, hoperand | ⟨overloads, o, adjusted, hfound, ho, hadjusted, hcreate⟩⟩ :=
    Evaluator.passes_notAggregate.maintained.course hargs trivial
      (Catalog.course_of_resolve hresolve)
  · exact hoperand.capped
  · exact (h name overloads hfound o ho).capped hadjusted hcreate

/-- Where no argument is an aggregate, none is the last. -/
theorem Args.lastAggregate?_eq_none_iff {args : Args}
    (hlength : args.evaluators.length ≤ args.positions.length) :
    args.lastAggregate? = none ↔ ∀ e ∈ args.evaluators, e.kind ≠ .groupBy := by
  rw [lastAggregate?, Option.map_eq_none_iff, List.find?_eq_none]
  constructor
  · intro h e he
    obtain ⟨i, hi, rfl⟩ := List.getElem_of_mem he
    have hmem : (args.evaluators[i], args.positions[i]) ∈
        (args.evaluators.zip args.positions).reverse :=
      List.mem_reverse.mpr (List.mem_iff_getElem.mpr ⟨i, by simp; omega, List.getElem_zip⟩)
    simpa using h _ hmem
  · rintro h ⟨e, span⟩ hmem
    have he : e ∈ args.evaluators := (List.of_mem_zip (List.mem_reverse.mp hmem)).1
    simpa using h e he

/-- The last aggregate is the one with no other after it. -/
theorem Args.lastAggregate?_of_last {args : Args} {i : Nat} {e : Evaluator} {span : Span}
    (hget : args.evaluators[i]? = some e) (hspan : args.positions[i]? = some span)
    (haggregate : e.kind = .groupBy)
    (hlast : ∀ j later, i < j → args.evaluators[j]? = some later → later.kind ≠ .groupBy) :
    args.lastAggregate? = some span := by
  have hpair : (args.evaluators.zip args.positions)[i]? = some (e, span) :=
    List.getElem?_zip_eq_some.mpr ⟨hget, hspan⟩
  obtain ⟨hi, hpair⟩ := List.getElem?_eq_some_iff.mp hpair
  refine Option.map_eq_some_iff.mpr ⟨(e, span), List.find?_eq_some_iff_append.mpr ⟨?_,
    ((args.evaluators.zip args.positions).drop (i + 1)).reverse,
    ((args.evaluators.zip args.positions).take i).reverse, ?_, ?_⟩, rfl⟩
  · simpa using haggregate
  · have hsplit : args.evaluators.zip args.positions =
        (args.evaluators.zip args.positions).take i ++
          (e, span) :: (args.evaluators.zip args.positions).drop (i + 1) := by
      rw [← hpair, List.getElem_cons_drop, List.take_append_drop]
    conv_lhs => rw [hsplit]
    rw [List.reverse_append, List.reverse_cons, List.append_assoc, List.singleton_append]
  · rintro ⟨later, position⟩ hmem
    obtain ⟨k, hk⟩ := List.mem_iff_getElem?.mp (List.mem_reverse.mp hmem)
    rw [List.getElem?_drop] at hk
    have hlater := (List.getElem?_zip_eq_some.mp hk).1
    simpa using hlast (i + 1 + k) later (by omega) hlater

namespace Resolver

variable {r : Resolver} {query : Node → Recursive Evaluator} {schema : Schema} {n : Node}
  {s t : Effects} {e : Evaluator}

/-- A node without arguments becomes an atom, or what its query or its call becomes. -/
theorem leafOf_ok (h : r.leafOf query schema n s = (.ok e, t)) :
    e.isAtom = true ∨ query n s = (.ok e, t) ∨
      r.catalog.resolve r.settings n.token n.span .empty s.context = (.ok e, t.context) := by
  unfold leafOf at h
  cases hkind : n.kind with
  | column =>
    simp only [hkind, liftExcept_apply] at h
    obtain hliteral | ⟨i, label, rfl, -⟩ := Schema.reference_ok (Prod.mk.inj h).1
    · cases hliteral <;> exact .inl rfl
    · exact .inl rfl
  | bindVariable =>
    simp only [hkind, bind_apply, get_apply, liftExcept_apply] at h
    obtain ⟨x, -, rfl⟩ := Link.ofNode_ok (Prod.mk.inj h).1
    cases x <;> exact .inl rfl
  | memberAccess =>
    simp only [hkind] at h
    cases h
    exact .inl rfl
  | constant =>
    simp only [hkind, liftExcept_apply] at h
    cases Literal.isLiteral_of_parse (Prod.mk.inj h).1 <;> exact .inl rfl
  | query =>
    simp only [hkind] at h
    exact .inr (.inl h)
  | function =>
    simp only [hkind] at h
    exact .inr (.inr (Recursive.ofResolution_ok h))
  | operation =>
    simp only [hkind] at h
    exact .inr (.inr (Recursive.ofResolution_ok h))

theorem leafOf_of_column (hkind : n.kind = .column) (s : Effects) :
    r.leafOf query schema n s = (schema.reference n.span n.token, s) := by
  simp only [leafOf, hkind, liftExcept_apply]

mutual

/-- A tree resolves to an evaluator without an aggregate below the root. -/
theorem capped_of_resolveTree (hbuilds : r.catalog.BuildsOverArguments r.settings)
    (hquery : ∀ n s e t, query n s = (.ok e, t) → e.Capped) :
    (n : Node) → (s t : Effects) → (e : Evaluator) →
      r.resolveTree query schema n s = (.ok e, t) → e.Capped
  | ⟨kind, token, span, [], text⟩, s, t, e, h => by
    rw [resolveTree_of_leaf r query schema rfl] at h
    obtain hatom | hcursor | hresolve := leafOf_ok h
    · exact Evaluator.capped_of_isAtom hatom
    · exact hquery _ s e t hcursor
    · have hnone : ∀ arg ∈ Args.empty.evaluators, arg.AllNodes fun n => n.kind ≠ .groupBy := nofun
      exact hbuilds.capped hnone hresolve
  | ⟨kind, token, span, n :: ns, text⟩, s, t, e, h => by
    rw [resolveTree_of_args r query schema (List.cons_ne_nil n ns)] at h
    obtain ⟨es, s', hes, hcall⟩ := exists_of_bind_ok h
    have hcapped := capped_of_resolveTrees hbuilds hquery (n :: ns) s s' es hes
    obtain ⟨hlast, hresolve⟩ := callOf_ok hcall
    have hpositions : es.length ≤ ((n :: ns).map (·.span)).length := by
      rw [List.length_map, length_resolveTrees hes]
    have hroots := (Args.lastAggregate?_eq_none_iff hpositions).mp hlast
    exact hbuilds.capped (fun arg harg => (hcapped arg harg).allNodes (hroots arg harg)) hresolve

theorem capped_of_resolveTrees (hbuilds : r.catalog.BuildsOverArguments r.settings)
    (hquery : ∀ n s e t, query n s = (.ok e, t) → e.Capped) :
    (ns : List Node) → (s t : Effects) → (es : List Evaluator) →
      r.resolveTrees query schema ns s = (.ok es, t) → ∀ e ∈ es, e.Capped
  | [], s, t, es, h => by
    cases h
    exact nofun
  | n :: ns, s, t, es, h => by
    rw [resolveTrees] at h
    obtain ⟨e, s', he, h⟩ := exists_of_bind_ok h
    obtain ⟨rest, t', hrest, h⟩ := exists_of_bind_ok h
    cases h
    exact List.forall_mem_cons.mpr ⟨capped_of_resolveTree hbuilds hquery n s s' e he,
      capped_of_resolveTrees hbuilds hquery ns s' t rest hrest⟩

end

/-- A query becomes a cursor. -/
theorem exists_cursor_of_cursorOf {resolve : Node → Schema → Recursive Evaluator}
    {compiler : Compiler} {text : String} (h : cursorOf resolve compiler text s = (.ok e, t)) :
    ∃ records, e = .cursor records := by
  unfold cursorOf at h
  obtain ⟨_, s₁, -, h⟩ := exists_of_bind_ok h
  obtain ⟨_, s₂, -, h⟩ := exists_of_bind_ok h
  obtain ⟨_, s₃, -, h⟩ := exists_of_bind_ok h
  obtain ⟨_, s₄, -, h⟩ := exists_of_bind_ok h
  obtain ⟨records, s₅, -, h⟩ := exists_of_bind_ok h
  cases h
  exact ⟨records, rfl⟩

theorem capped_of_queryOf {compilers : List Compiler}
    (h : r.queryOf compilers n s = (.ok e, t)) : e.Capped := by
  cases compilers with
  | nil => cases h
  | cons compiler inner =>
    rw [queryOf] at h
    cases htext : n.query with
    | none =>
      simp only [htext] at h
      cases h
    | some text =>
      simp only [htext] at h
      obtain ⟨records, rfl⟩ := exists_cursor_of_cursorOf h
      exact Evaluator.capped_of_isAtom rfl

variable {root : Node} {w : Walk} {es : List Evaluator}

/-- The loop over the nodes of a tree comes to a node, whose arguments have become evaluators. -/
inductive ComesTo (r : Resolver) (root : Node) (schema : Schema) (w : Walk) (n : Node)
    (es : List Evaluator) : Prop
  | intro {visited rest : List Node} {w' : Walk} (order : root.postorder = visited ++ n :: rest)
      (visits : forM visited (r.visit (r.query r.compilers)) (w.enter schema) = (.ok (), w'))
      (top : (w'.top n.args.length).evaluators = es)

/-- Where the loop comes to a node, what its arguments resolved to stands on top of the stacks. -/
theorem exists_resolveTrees_of_visits {compilers : List Compiler} {visited rest : List Node}
    {w' : Walk} (horder : root.postorder = visited ++ n :: rest)
    (hvisits : forM visited (r.visit (r.query compilers)) (w.enter schema) = (.ok (), w')) :
    ∃ base es s, r.resolveTrees (r.queryOf compilers) schema n.args s = (.ok es, w'.effects) ∧
      w' = Walk.pushAll base es (n.args.map (·.span)) ∧ es.length = n.args.length := by
  obtain ⟨earlier, rfl⟩ := Node.exists_args_of_postorder root visited horder
  rw [funext (r.query_ofRecursive compilers), List.forM_append] at hvisits
  obtain ⟨_, w₁, hearlier, hargs⟩ := exists_of_bind_ok hvisits
  have hschema : w₁.schema = some schema := by
    obtain ⟨m, later, hlater⟩ :=
      List.exists_cons_of_ne_nil (List.append_ne_nil_of_right_ne_nil (Node.postorders n.args)
        (List.cons_ne_nil n rest))
    rw [List.append_assoc, hlater] at horder
    obtain ⟨count, hstanding, -⟩ := Node.exists_standing horder
    exact (above_of_visits rfl (w.enter schema).above_self hstanding hearlier).schema
  have hleaves := leaves_postorders r (r.queryOf compilers) schema n.args w₁ hschema
  rcases hresult : r.resolveTrees (r.queryOf compilers) schema n.args w₁.effects with ⟨e | es, s⟩
  · rw [hresult] at hleaves
    obtain ⟨_, _, herror⟩ := hleaves
    rw [hargs] at herror
    cases herror
  · rw [hresult, hargs] at hleaves
    obtain ⟨-, rfl⟩ := Prod.mk.inj hleaves
    exact ⟨w₁.withEffects s, es, w₁.effects, hresult, rfl, length_resolveTrees hresult⟩

/-- The loop comes to the root of a tree where its arguments are resolved. -/
theorem comesTo_of_resolveTrees {t : Effects}
    (h : r.resolveTrees (r.queryOf r.compilers) schema root.args w.effects = (.ok es, t)) :
    r.ComesTo root schema w root es := by
  have hleaves := leaves_postorders r (r.queryOf r.compilers) schema root.args (w.enter schema) rfl
  have heffects : (w.enter schema).effects = w.effects := rfl
  rw [heffects, h, ← funext (r.query_ofRecursive r.compilers)] at hleaves
  refine .intro root.postorder_eq hleaves ?_
  rw [Walk.top_pushAll _ (length_resolveTrees h) (List.length_map ..)]

/-- A node with aggregates among its arguments fails at the last of them. -/
theorem ComesTo.error_of_aggregate (h : r.ComesTo root schema w n es) {i : Nat} {child : Node}
    (hchild : n.args[i]? = some child) (he : es[i]? = some e) (haggregate : e.kind = .groupBy)
    (hlast : ∀ j later, i < j → es[j]? = some later → later.kind ≠ .groupBy) :
    (r.resolve root schema w).1 = .error (.aggregateAsArgument child.span) := by
  obtain ⟨horder, hvisits, htop⟩ := h
  obtain ⟨base, resolved, s, -, rfl, hlength⟩ := exists_resolveTrees_of_visits horder hvisits
  rw [Walk.top_pushAll base hlength (List.length_map ..)] at htop
  subst htop
  have hargs : n.args ≠ [] := by
    intro hnil
    rw [hnil] at hchild
    cases hchild
  have hspan : (n.args.map (·.span))[i]? = some child.span := by
    rw [List.getElem?_map, hchild, Option.map_some]
  have hposition : (Args.mk resolved (n.args.map (·.span))).lastAggregate? = some child.span :=
    Args.lastAggregate?_of_last he hspan haggregate hlast
  have hvisit := visit_pushAll (r := r) hargs base hlength (r.query r.compilers)
  rw [callOf, hposition] at hvisit
  have hloop : forM root.postorder (r.visit (r.query r.compilers)) (w.enter schema) =
      (.error (.aggregateAsArgument child.span), base) := by
    rw [horder, List.forM_append, bind_of_ok hvisits, List.forM_cons, bind_of_error]
    exact hvisit
  rw [resolve, walk_apply, hloop]

/-- Aggregates stand at the root of what a tree resolves to, where factories build over the
arguments that they are given. A node that takes aggregates fails at the last of them. -/
theorem aggregates_at_root (hbuilds : r.catalog.BuildsOverArguments r.settings) :
    (∀ e after, r.resolve root schema w = (.ok e, after) →
      ∀ arg ∈ e.args, ∀ below ∈ arg.nodes, below.kind ≠ .groupBy) ∧
    ∀ n es, r.ComesTo root schema w n es →
      ∀ (i : Nat) (child : Node) (e : Evaluator), n.args[i]? = some child → es[i]? = some e →
        e.kind = .groupBy →
          (∀ (j : Nat) (later : Evaluator), i < j → es[j]? = some later → later.kind ≠ .groupBy) →
            (r.resolve root schema w).1 = .error (.aggregateAsArgument child.span) := by
  constructor
  · intro e after h
    obtain ⟨t, htree, -⟩ := resolve_ok h
    exact capped_of_resolveTree hbuilds (fun _ _ _ _ => capped_of_queryOf) root w.effects t e htree
  · intro n es h i child e hchild he haggregate hlast
    exact h.error_of_aggregate hchild he haggregate hlast

end Resolver

/-- An aggregate over a STRING, outside the library. -/
def textAggregate : Overload :=
  ⟨⟨"t", [⟨.string, false⟩], none⟩,
    { (default : Factory) with
      build := fun _ args _ _ => .ok (some
        (.custom ⟨"t", .long, .none, .groupBy, fun _ _ => .null⟩ 0 args.evaluators)) }⟩

theorem buildsOverArguments_textAggregate :
    (Catalog.mk [("t", [textAggregate])] []).BuildsOverArguments .default := by
  refine Catalog.buildsOverArguments_of_single fun span args c e hbuild => ?_
  cases hbuild
  exact .inr fun arg harg => .given harg

/-- The call `t(u)` of a column that is a UUID. -/
def textTotal : Node := ⟨.function, "t", ⟨2, 1⟩, [⟨.column, "u", ⟨4, 1⟩, [], none⟩], none⟩

theorem Resolver.resolveTree_uuidColumn (r : Resolver) (query : Node → Recursive Evaluator)
    (span : Span) (s : Effects) :
    r.resolveTree query (.ofColumns [.plain "u" .uuid]) ⟨.column, "u", span, [], none⟩ s =
      (.ok (.column 0 .uuid "u"), s) := by
  have hreference : (Schema.ofColumns [.plain "u" .uuid]).reference span "u" =
      .ok (.column 0 .uuid "u") := rfl
  rw [resolveTree_of_leaf _ _ _ rfl, leafOf_of_column rfl, hreference]

/-- The aggregate over the text of the UUID. -/
def aggregated : Evaluator :=
  .custom ⟨"t", .long, .none, .groupBy, fun _ _ => .null⟩ 0
    [.adapt .uuidToStr .uuid .string (.column 0 .uuid "u")]

theorem Resolver.resolveTree_textTotal (query : Node → Recursive Evaluator) :
    (Resolver.mk ⟨[("t", [textAggregate])], []⟩ .default []).resolveTree query
      (.ofColumns [.plain "u" .uuid]) textTotal (Walk.idle (.fresh 0)).effects =
        (.ok aggregated, (Walk.idle (.fresh 0)).effects) := by
  rw [resolveTree_of_args _ _ _ (List.cons_ne_nil _ _), textTotal, resolveTrees, bind_assoc,
    bind_of_ok (resolveTree_uuidColumn ..), resolveTrees]
  rfl

/-- The call `t(u)` resolves to an aggregate over an adapter, and the call `t(t(u), u)` fails at its
first argument. -/
theorem Resolver.aggregates_at_root_textAggregate :
    let r : Resolver := ⟨⟨[("t", [textAggregate])], []⟩, .default, []⟩
    let schema : Schema := .ofColumns [.plain "u" .uuid]
    let w : Walk := .idle (.fresh 0)
    let column : Node := ⟨.column, "u", ⟨8, 1⟩, [], none⟩
    let nested : Node := ⟨.function, "t", ⟨0, 1⟩, [textTotal, column], none⟩
    r.catalog.BuildsOverArguments r.settings ∧
      r.resolve textTotal schema w = (.ok aggregated, w) ∧
      (∀ arg ∈ aggregated.args, ∀ below ∈ arg.nodes, below.kind ≠ .groupBy) ∧
      r.ComesTo nested schema w nested [aggregated, .column 0 .uuid "u"] ∧
      (r.resolve nested schema w).1 = .error (.aggregateAsArgument ⟨2, 1⟩) := by
  intro r schema w column nested
  have hbuilds : r.catalog.BuildsOverArguments r.settings := buildsOverArguments_textAggregate
  have hresolve : r.resolve textTotal schema w = (.ok aggregated, w) :=
    resolve_of_ok (resolveTree_textTotal _)
  have hargs : r.resolveTrees (r.queryOf r.compilers) schema nested.args w.effects =
      (.ok [aggregated, .column 0 .uuid "u"], w.effects) := by
    rw [resolveTrees, bind_of_ok (resolveTree_textTotal _), resolveTrees, bind_assoc,
      bind_of_ok (resolveTree_uuidColumn ..), resolveTrees]
    rfl
  have hcomes : r.ComesTo nested schema w nested [aggregated, .column 0 .uuid "u"] :=
    comesTo_of_resolveTrees hargs
  have hlast : ∀ (j : Nat) (later : Evaluator), 0 < j →
      [aggregated, .column 0 .uuid "u"][j]? = some later → later.kind ≠ .groupBy := by
    intro j later hj hlater
    obtain ⟨j, rfl⟩ := Nat.exists_eq_succ_of_ne_zero hj.ne'
    rw [List.getElem?_cons_succ] at hlater
    rw [List.mem_singleton.mp (List.mem_of_getElem? hlater)]
    exact EvaluatorKind.noConfusion
  exact ⟨hbuilds, hresolve, (aggregates_at_root hbuilds).1 aggregated w hresolve, hcomes,
    (aggregates_at_root hbuilds).2 nested _ hcomes 0 textTotal aggregated rfl rfl rfl hlast⟩

end SqlResolution
