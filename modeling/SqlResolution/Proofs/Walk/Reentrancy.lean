import SqlResolution.Proofs.Overload.Run
import SqlResolution.Proofs.Walk.Entries
import SqlResolution.Proofs.Walk.Journal

/-!
# Walks inside walks

A walk for a subquery starts in the middle of another. Where the compilers close the timestamp
scopes that they open, a walk gives back all that it found, also where it fails, and it answers what
a walk in a resolver of its own would.
-/
namespace SqlResolution

open Steps

def Walk.scopes (w : Walk) : List Bool := w.context.timestampScopes

/-- The walk that the plan of a query is followed in. -/
def Walk.openQuery (w : Walk) (text : String) : Walk :=
  { w with
    context := w.context.pushTimestampRequired false
    journal := w.journal ++ [.compiled text false] }

/-- The run of a plan closes each timestamp scope that it opens and no other one. So many are open
at the start. -/
def Plan.Balances (resolve : Node → Schema → Walking Evaluator) : Plan → Nat → Walk → Prop
  | .finish _, opened, _ => opened = 0
  | .fail _, opened, _ => opened = 0
  | .resolve n schema next, opened, w =>
    match resolve n schema w with
    | (.ok e, w) => (next (.ok e)).Balances resolve opened (w.note (.resolved e))
    | (.error e, w) => (next (.error e)).Balances resolve opened w
  | .pushTimestampRequired required next, opened, w =>
    next.Balances resolve (opened + 1)
      { w with context := w.context.pushTimestampRequired required }
  | .popTimestampRequired next, opened, w =>
    0 < opened ∧
      next.Balances resolve (opened - 1) { w with context := w.context.popTimestampRequired }
  | .inspect next, opened, w => (next w.context).Balances resolve opened w

namespace Resolver

/-- Each compiler, with those after it for the queries inside its own, closes the timestamp scopes
that it opens, whatever walk it is called in. -/
def BalancesScopes (r : Resolver) : List Compiler → Prop
  | [] => True
  | compiler :: inner =>
    (∀ (text : String) (w : Walk),
      (compiler text).Balances (r.walk (r.query inner)) 0 (w.openQuery text)) ∧
      r.BalancesScopes inner

theorem follow_resolve_apply (resolve : Node → Schema → Walking Evaluator) (n : Node)
    (schema : Schema) (next : Except ResolveError Evaluator → Plan) (w : Walk) :
    follow resolve (.resolve n schema next) w =
      match resolve n schema w with
      | (.ok e, w) => follow resolve (next (.ok e)) (w.note (.resolved e))
      | (.error e, w) => follow resolve (next (.error e)) w := by
  rw [follow, bind_apply]
  unfold Walking.capture
  rcases resolve n schema w with ⟨e | e, w⟩ <;> rfl

/-- Following a plan that balances its scopes leaves those that were open around it. -/
theorem scopes_follow {resolve : Node → Schema → Walking Evaluator}
    (hresolve : ∀ n schema, Keeps Walk.scopes (resolve n schema)) {plan : Plan} {w : Walk}
    {own around : List Bool} (hbalances : plan.Balances resolve own.length w)
    (hscopes : w.scopes = own ++ around) : (follow resolve plan w).2.scopes = around := by
  induction plan generalizing w own with
  | finish schema =>
    have hown : own = [] := List.length_eq_zero_iff.mp hbalances
    rw [hown] at hscopes
    exact hscopes
  | fail e =>
    have hown : own = [] := List.length_eq_zero_iff.mp hbalances
    rw [hown] at hscopes
    exact hscopes
  | resolve n schema next ih =>
    have hkept := hresolve n schema w
    rw [follow_resolve_apply]
    rw [Plan.Balances] at hbalances
    rcases hresult : resolve n schema w with ⟨e | e, w'⟩
    · rw [hresult] at hbalances hkept
      exact ih _ hbalances (hkept.trans hscopes)
    · rw [hresult] at hbalances hkept
      exact ih _ hbalances (hkept.trans hscopes)
  | pushTimestampRequired required next ih =>
    have hpushed : required :: w.scopes = (required :: own) ++ around := by
      rw [hscopes, List.cons_append]
    exact @ih _ (required :: own) hbalances hpushed
  | popTimestampRequired next ih =>
    obtain ⟨hopened, hrest⟩ := hbalances
    obtain ⟨required, own, rfl⟩ := List.exists_cons_of_length_pos hopened
    have hpopped : w.scopes.tail = own ++ around := by
      rw [hscopes, List.cons_append, List.tail_cons]
    exact ih hrest hpopped
  | inspect next ih => exact ih w.context hbalances hscopes

theorem compile_apply (resolve : Node → Schema → Walking Evaluator) (compiler : Compiler)
    (text : String) (w : Walk) :
    compile resolve compiler text w =
      let (schema, w) := follow resolve (compiler text) (w.openQuery text)
      (schema.map .cursor, { w with context := w.context.popTimestampRequired }) := by
  rcases hfollow : follow resolve (compiler text) (w.openQuery text) with ⟨schema, w'⟩
  have hcapture : Walking.capture (follow resolve (compiler text)) (w.openQuery text) =
      (.ok schema, w') := by
    rw [Walking.capture, hfollow]
  unfold compile
  rw [bind_of_ok (modify_apply ..), bind_of_ok (modify_apply ..)]
  change (Walking.capture (follow resolve (compiler text)) >>= _) (w.openQuery text) = _
  rw [bind_of_ok hcapture, bind_of_ok (modify_apply ..)]
  cases schema <;> rfl

/-- A compiler that balances its scopes leaves those that were open around its query. -/
theorem keeps_scopes_compile {resolve : Node → Schema → Walking Evaluator}
    (hresolve : ∀ n schema, Keeps Walk.scopes (resolve n schema)) {compiler : Compiler}
    {text : String}
    (hbalances : ∀ w : Walk, (compiler text).Balances resolve 0 (w.openQuery text)) :
    Keeps Walk.scopes (compile resolve compiler text) := by
  intro w
  have hfollow : (follow resolve (compiler text) (w.openQuery text)).2.scopes = false :: w.scopes :=
    @scopes_follow resolve hresolve _ _ [] _ (hbalances w) rfl
  rw [compile_apply]
  exact congrArg List.tail hfollow

theorem keeps_scopes_call (r : Resolver) (n : Node) (args : Args) :
    Keeps Walk.scopes (r.call n args) := by
  intro w
  have hframe := r.catalog.keeps_frame_resolve r.settings n.token n.span args w.context
  have hscopes := congrArg Context.timestampScopes hframe
  exact hscopes

theorem keeps_scopes_popArgs (count : Nat) : Keeps Walk.scopes (popArgs count) := by
  intro w
  unfold popArgs
  simp only [bind_apply, get_apply]
  split
  · rfl
  · split
    · rfl
    · cases w.aggregate? count <;> rfl

theorem keeps_scopes_leaf {r : Resolver} {query : Node → Walking Evaluator}
    (hquery : ∀ n, Keeps Walk.scopes (query n)) (n : Node) :
    Keeps Walk.scopes (r.leaf query n) := by
  refine .bind .get fun w => ?_
  cases n.kind with
  | column =>
    cases w.schema with
    | none => exact .throw _
    | some schema => exact .liftExcept _
  | constant => exact .liftExcept _
  | bindVariable => exact .liftExcept _
  | memberAccess => exact .pure _
  | query => exact hquery n
  | function => exact r.keeps_scopes_call n .empty
  | operation => exact r.keeps_scopes_call n .empty

theorem keeps_scopes_visit {r : Resolver} {query : Node → Walking Evaluator}
    (hquery : ∀ n, Keeps Walk.scopes (query n)) (n : Node) :
    Keeps Walk.scopes (r.visit query n) := by
  have hpush : ∀ e : Evaluator,
      Keeps Walk.scopes (modify (·.push e n.span) : Walking PUnit) :=
    fun e => .modify fun _ => rfl
  unfold visit
  split
  · exact .bind (keeps_scopes_leaf hquery n) hpush
  · exact .bind (keeps_scopes_popArgs _) fun args => .bind (r.keeps_scopes_call n args) hpush

theorem keeps_scopes_walk {r : Resolver} {query : Node → Walking Evaluator}
    (hquery : ∀ n, Keeps Walk.scopes (query n)) (root : Node) (schema : Schema) :
    Keeps Walk.scopes (r.walk query root schema) := by
  intro w
  have hvisits := Keeps.forM (keeps_scopes_visit (r := r) hquery) root.postorder (w.enter schema)
  rw [walk_apply]
  rcases hresult : forM root.postorder (r.visit query) (w.enter schema) with ⟨e | _, w'⟩
  · rw [hresult] at hvisits
    exact hvisits
  · rw [hresult] at hvisits
    have hpop : (popResult w'.leave).2.scopes = w'.scopes := by
      unfold popResult
      simp only [bind_apply, get_apply, set_apply]
      cases w'.leave.evaluators <;> rfl
    exact hpop.trans hvisits

/-- Queries leave the timestamp scopes as they are where the compilers balance them. -/
theorem keeps_scopes_query {r : Resolver} {compilers : List Compiler}
    (hbalances : r.BalancesScopes compilers) (n : Node) :
    Keeps Walk.scopes (r.query compilers n) := by
  induction compilers generalizing n with
  | nil => exact .throw _
  | cons compiler inner ih =>
    obtain ⟨hcompiler, hinner⟩ := hbalances
    rw [query]
    cases n.query with
    | none => exact .throw _
    | some text =>
      exact keeps_scopes_compile (keeps_scopes_walk (ih hinner)) (hcompiler text)

theorem walk_query_eq (r : Resolver) (compilers : List Compiler) (root : Node) (schema : Schema) :
    r.walk (r.query compilers) root schema =
      .ofRecursive (r.resolveTree (r.queryOf compilers) schema root) := by
  rw [funext (r.query_ofRecursive compilers)]
  exact r.walk_ofRecursive _ root schema

theorem resolve_of_ok {r : Resolver} {root : Node} {schema : Schema} {w : Walk} {t : Effects}
    {e : Evaluator}
    (h : r.resolveTree (r.queryOf r.compilers) schema root w.effects = (.ok e, t)) :
    r.resolve root schema w = (.ok e, w.withEffects t) := by
  rw [resolve, walk_query_eq, Walking.ofRecursive_apply, h]

theorem resolve_ok {r : Resolver} {root : Node} {schema : Schema} {w after : Walk} {e : Evaluator}
    (h : r.resolve root schema w = (.ok e, after)) :
    ∃ t, r.resolveTree (r.queryOf r.compilers) schema root w.effects = (.ok e, t) ∧
      after = w.withEffects t := by
  rw [resolve, walk_query_eq, Walking.ofRecursive_apply] at h
  obtain ⟨hresult, rfl⟩ := Prod.mk.inj h
  exact ⟨_, Prod.ext hresult rfl, rfl⟩

/-- A walk answers what it would on stacks of its own, and notes the same after what was noted
before. -/
theorem walk_eq_fresh (r : Resolver) (compilers : List Compiler) (root : Node) (schema : Schema)
    (w : Walk) :
    r.walk (r.query compilers) root schema w =
      let (result, fresh) := r.walk (r.query compilers) root schema (.idle w.context)
      (result, { w with context := fresh.context, journal := w.journal ++ fresh.journal }) := by
  have hcommutes := @commutes_resolveTree w.journal _ r (r.commutes_queryOf compilers) schema root
    ⟨w.context, []⟩
  have heffects : w.effects = Effects.after w.journal ⟨w.context, []⟩ := by
    simp only [Walk.effects, Effects.after, List.append_nil]
  rw [walk_query_eq, Walking.ofRecursive_apply, Walking.ofRecursive_apply, heffects, hcommutes]
  rfl

/-- A node without arguments that is resolved without an effect. -/
theorem resolve_of_leaf {r : Resolver} {root : Node} {schema : Schema} {w : Walk}
    {result : Except ResolveError Evaluator} (hargs : root.args = [])
    (hleaf : r.leafOf (r.queryOf r.compilers) schema root w.effects = (result, w.effects)) :
    r.resolve root schema w = (result, w) := by
  rw [resolve, walk_query_eq, Walking.ofRecursive_apply, r.resolveTree_of_leaf _ _ hargs, hleaf,
    Walk.withEffects, Walk.effects]

/-- A call whose arguments resolve without an effect does what the call of its name does. -/
theorem resolve_of_args {r : Resolver} {root : Node} {schema : Schema} {w : Walk}
    {es : List Evaluator} {result : Except ResolveError Evaluator} {c : Context}
    (hargs : root.args ≠ [])
    (hes : r.resolveTrees (r.queryOf r.compilers) schema root.args w.effects = (.ok es, w.effects))
    (hscalar : (Args.mk es (root.args.map (·.span))).lastAggregate? = none)
    (hcall : r.catalog.resolve r.settings root.token root.span ⟨es, root.args.map (·.span)⟩
      w.context = (result, c)) :
    r.resolve root schema w = (result, { w with context := c }) := by
  have hcallOf : r.callOf root es w.effects = (result, { w.effects with context := c }) := by
    simp only [callOf, hscalar]
    rw [Recursive.ofResolution]
    dsimp only [Walk.effects]
    rw [hcall]
  rw [resolve, walk_query_eq, Walking.ofRecursive_apply, r.resolveTree_of_args _ _ hargs,
    bind_of_ok hes, hcallOf]
  rfl

variable {r : Resolver} {compilers : List Compiler} {root : Node} {schema : Schema} {w w' : Walk}

/-- Where a walk comes to a node, the node's arguments are among its own entries. -/
theorem above_of_visited {n : Node} {visited rest : List Node}
    (horder : root.postorder = visited ++ n :: rest)
    (hvisits : forM visited (r.visit (r.query compilers)) (w.enter schema) = (.ok (), w')) :
    ∃ count, (w.enter schema).Above count w' ∧ n.args.length ≤ count := by
  obtain ⟨count, hstanding, hargs⟩ := Node.exists_standing horder
  rw [funext (r.query_ofRecursive compilers)] at hvisits
  exact ⟨count, above_of_visits rfl (w.enter schema).above_self hstanding hvisits, hargs⟩

/-- A walk that has visited all of a tree has one entry of its own, which it answers. -/
theorem walk_of_visits
    (hvisits : forM root.postorder (r.visit (r.query compilers)) (w.enter schema) = (.ok (), w')) :
    (w.enter schema).Above 1 w' ∧
      ∃ e, w'.evaluators = e :: w.evaluators ∧
        (r.walk (r.query compilers) root schema w).1 = .ok e := by
  have hwalk := walk_apply r (r.query compilers) root schema w
  rw [hvisits] at hwalk
  have habove : (w.enter schema).Above 1 w' := by
    rw [funext (r.query_ofRecursive compilers)] at hvisits
    exact above_of_visits rfl (w.enter schema).above_self (Node.standing_postorder 0 root) hvisits
  obtain ⟨es, hes, hevaluators⟩ := habove.evaluators
  obtain ⟨e, rfl⟩ := List.length_eq_one_iff.mp hes
  have hleave : w'.leave.evaluators = e :: w.evaluators := hevaluators
  refine ⟨habove, e, hevaluators, ?_⟩
  rw [hwalk]
  unfold popResult
  simp only [bind_apply, get_apply, set_apply, hleave]
  rfl

/-- A walk at any nesting, against what is left of the compilers, takes nothing from the walks
around it and gives nothing away. -/
structure ReentersAt (r : Resolver) (compilers : List Compiler) (root : Node) (schema : Schema)
    (w : Walk) : Prop where
  keepsEvaluators : (r.walk (r.query compilers) root schema w).2.evaluators = w.evaluators
  keepsPositions : (r.walk (r.query compilers) root schema w).2.positions = w.positions
  keepsSchema : (r.walk (r.query compilers) root schema w).2.schema = w.schema
  keepsEnclosing : (r.walk (r.query compilers) root schema w).2.enclosing = w.enclosing
  keepsScopes : (r.walk (r.query compilers) root schema w).2.scopes = w.scopes
  /-- Where the walk comes to a node, the node's arguments are among the entries of the walk, and
  taking them finds no stack exhausted. -/
  ownsArguments : ∀ visited n rest w', root.postorder = visited ++ n :: rest →
    forM visited (r.visit (r.query compilers)) (w.enter schema) = (.ok (), w') →
      (∃ count, (w.enter schema).Above count w' ∧ n.args.length ≤ count) ∧
        ∀ fault, (popArgs n.args.length w').1 ≠ .error (.internal fault)
  /-- After the last node the walk has one entry, which it answers. -/
  ownsResult : ∀ w', forM root.postorder (r.visit (r.query compilers)) (w.enter schema) =
    (.ok (), w') → (w.enter schema).Above 1 w' ∧ ∃ e, w'.evaluators = e :: w.evaluators ∧
      (r.walk (r.query compilers) root schema w).1 = .ok e
  /-- A walk on empty stacks answers the same, and leaves the same context. -/
  answersAsFresh : (r.walk (r.query compilers) root schema w).1 =
    (r.walk (r.query compilers) root schema (.idle w.context)).1
  leavesContextAsFresh : (r.walk (r.query compilers) root schema w).2.context =
    (r.walk (r.query compilers) root schema (.idle w.context)).2.context

/-- Compilers that balance their timestamp scopes may start walks in the middle of any other. -/
theorem walk_reenters (r : Resolver) {compilers : List Compiler}
    (hbalances : r.BalancesScopes compilers) (root : Node) (schema : Schema) (w : Walk) :
    r.ReentersAt compilers root schema w := by
  have hfresh := r.walk_eq_fresh compilers root schema w
  constructor
  case keepsScopes => exact keeps_scopes_walk (keeps_scopes_query hbalances) root schema w
  case ownsArguments =>
    intro visited n rest w' horder hvisits
    obtain ⟨count, habove, hargs⟩ := above_of_visited horder hvisits
    refine ⟨⟨count, habove, hargs⟩, ?_⟩
    intro fault
    rw [habove.popArgs hargs]
    cases w'.aggregate? n.args.length <;> intro hfault <;> cases hfault
  case ownsResult => exact fun w' hvisits => walk_of_visits hvisits
  all_goals
    rw [hfresh]
    rfl

/-- Looks for a column in a timestamp scope of its own, and does without it. -/
def scopedColumn : Compiler := fun text =>
  .pushTimestampRequired true <| .resolve ⟨.column, text, .none, [], none⟩ .empty fun _ =>
    .popTimestampRequired (.finish .empty)

/-- A call of a query that resolves a column in vain, in the middle of another walk. -/
theorem walk_reenters_scopedColumn :
    let r : Resolver := ⟨⟨[], []⟩, .default, [scopedColumn]⟩
    let root : Node := ⟨.function, "f", .none, [⟨.query, "", .none, [], some "x"⟩], none⟩
    let w := (Walk.idle (.fresh 0)).push .untypedNull .none
    r.BalancesScopes r.compilers ∧ r.ReentersAt r.compilers root .empty w := by
  intro r root w
  have hbalances : r.BalancesScopes r.compilers := by
    refine ⟨?_, trivial⟩
    intro text w
    unfold scopedColumn
    rw [Plan.Balances, Plan.Balances]
    split
    · exact ⟨Nat.one_pos, rfl⟩
    · exact ⟨Nat.one_pos, rfl⟩
  exact ⟨hbalances, walk_reenters r hbalances root .empty w⟩

end Resolver
end SqlResolution
