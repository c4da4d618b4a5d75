import SqlResolution.Walk.Resolve

/-!
# Resolution by recursion

The resolver of expression trees as a recursion over the tree. It has no stacks and no schema in its
state: a node's arguments are resolved left to right, and their evaluators are handed to the call as
a list. What it changes is the context and the journal.
-/
namespace SqlResolution

/-- What a resolution leaves behind beside its evaluator. -/
structure Effects where
  context : Context
  journal : List JournalEntry

namespace Effects

def pushTimestampRequired (s : Effects) (required : Bool) : Effects :=
  { s with context := s.context.pushTimestampRequired required }

def popTimestampRequired (s : Effects) : Effects :=
  { s with context := s.context.popTimestampRequired }

def note (s : Effects) (entry : JournalEntry) : Effects :=
  { s with journal := s.journal ++ [entry] }

end Effects

/-- A step of the recursion. The effects of a failure are those up to it. -/
abbrev Recursive := ExceptT ResolveError (StateM Effects)

namespace Recursive

/-- A step that needs the context alone. -/
def ofResolution (step : Resolution α) : Recursive α := fun s =>
  let (result, context) := step s.context
  (result, { s with context })

/-- The result of a step, which may be an error. -/
def capture (step : Recursive α) : Recursive (Except ResolveError α) := fun s =>
  let (result, s) := step s
  (.ok result, s)

variable {step : Resolution α} {s t : Effects} {a : α} {c : Context}

theorem ofResolution_of_ok (h : step s.context = (.ok a, c)) :
    ofResolution step s = (.ok a, { s with context := c }) := by
  rw [ofResolution, h]

theorem ofResolution_ok (h : ofResolution step s = (.ok a, t)) :
    step s.context = (.ok a, t.context) := by
  rcases hrun : step s.context with ⟨result, c⟩
  rw [ofResolution, hrun] at h
  cases h
  rfl

theorem ofResolution_error {e : ResolveError} (h : ofResolution step s = (.error e, t)) :
    step s.context = (.error e, t.context) := by
  rcases hrun : step s.context with ⟨result, c⟩
  rw [ofResolution, hrun] at h
  cases h
  rfl

end Recursive

/-- The position of the last argument that is an aggregate. -/
def Args.lastAggregate? (args : Args) : Option Span :=
  ((args.evaluators.zip args.positions).reverse.find? fun (e, _) => e.kind == .groupBy).map (·.2)

namespace Resolver

/-- The evaluator of a node without arguments, by the node's kind. -/
def leafOf (r : Resolver) (query : Node → Recursive Evaluator) (schema : Schema) (n : Node) :
    Recursive Evaluator := do
  match n.kind with
  | .column => liftExcept (schema.reference n.span n.token)
  | .bindVariable => liftExcept (Link.ofNode (← get).context n.span n.token)
  | .memberAccess => return .ofString n.token
  | .constant => liftExcept (Literal.parse n.span n.token)
  | .query => query n
  | .function | .operation => .ofResolution (r.catalog.resolve r.settings n.token n.span .empty)

/-- The evaluator of a node whose arguments have these evaluators. None of them may be an
aggregate. -/
def callOf (r : Resolver) (n : Node) (es : List Evaluator) : Recursive Evaluator :=
  let args : Args := ⟨es, n.args.map (·.span)⟩
  match args.lastAggregate? with
  | some position => throw (.aggregateAsArgument position)
  | none => .ofResolution (r.catalog.resolve r.settings n.token n.span args)

mutual

/-- The evaluator of a tree: of a leaf by its kind, and of a call after its arguments. -/
def resolveTree (r : Resolver) (query : Node → Recursive Evaluator) (schema : Schema) :
    Node → Recursive Evaluator
  | ⟨kind, token, span, [], text⟩ => r.leafOf query schema ⟨kind, token, span, [], text⟩
  | ⟨kind, token, span, n :: ns, text⟩ => do
    let es ← r.resolveTrees query schema (n :: ns)
    r.callOf ⟨kind, token, span, n :: ns, text⟩ es

/-- The evaluators of trees, left to right. -/
def resolveTrees (r : Resolver) (query : Node → Recursive Evaluator) (schema : Schema) :
    List Node → Recursive (List Evaluator)
  | [] => return []
  | n :: ns => do
    let e ← r.resolveTree query schema n
    let es ← r.resolveTrees query schema ns
    return e :: es

end

/-- The schema that a plan answers, with a way to resolve the expressions in it. -/
def schemaOf (resolve : Node → Schema → Recursive Evaluator) : Plan → Recursive Schema
  | .finish schema => return schema
  | .fail e => throw e
  | .resolve n schema next => do
    let result ← Recursive.capture (resolve n schema)
    if let .ok e := result then modify (·.note (.resolved e))
    schemaOf resolve (next result)
  | .pushTimestampRequired required next => do
    modify (·.pushTimestampRequired required)
    schemaOf resolve next
  | .popTimestampRequired next => do
    modify (·.popTimestampRequired)
    schemaOf resolve next
  | .inspect next => do schemaOf resolve (next (← get).context)

/-- The cursor of a query, which a plan compiles where no timestamp is required. -/
def cursorOf (resolve : Node → Schema → Recursive Evaluator) (compiler : Compiler)
    (text : String) : Recursive Evaluator := do
  modify (·.pushTimestampRequired false)
  modify fun s => s.note (.compiled text s.context.timestampRequired)
  let schema ← Recursive.capture (schemaOf resolve (compiler text))
  modify (·.popTimestampRequired)
  return .cursor (← liftExcept schema)

/-- The evaluator of a query node, by the first of the compilers. -/
def queryOf (r : Resolver) : List Compiler → Node → Recursive Evaluator
  | [], _ => throw (.internal .noCompiler)
  | compiler :: inner, n =>
    match n.query with
    | none => throw (.internal .noQueryModel)
    | some text => cursorOf (fun n schema => r.resolveTree (r.queryOf inner) schema n) compiler text

/-- Resolves an expression tree against the schema of its rows by recursion. -/
def resolveRecursively (r : Resolver) (root : Node) (schema : Schema) : Recursive Evaluator :=
  r.resolveTree (r.queryOf r.compilers) schema root

/-- A call that succeeds finds no aggregate among its arguments. -/
theorem callOf_ok {r : Resolver} {n : Node} {es : List Evaluator} {s t : Effects} {e : Evaluator}
    (h : r.callOf n es s = (.ok e, t)) :
    (Args.mk es (n.args.map (·.span))).lastAggregate? = none ∧
      r.catalog.resolve r.settings n.token n.span ⟨es, n.args.map (·.span)⟩ s.context =
        (.ok e, t.context) := by
  unfold callOf at h
  cases hlast : (Args.mk es (n.args.map (·.span))).lastAggregate? with
  | some position =>
    rw [hlast] at h
    cases h
  | none =>
    rw [hlast] at h
    exact ⟨rfl, Recursive.ofResolution_ok h⟩

/-- A call is resolved after its arguments. -/
theorem resolveTree_of_args (r : Resolver) (query : Node → Recursive Evaluator) (schema : Schema)
    {n : Node} (hargs : n.args ≠ []) :
    r.resolveTree query schema n = r.resolveTrees query schema n.args >>= r.callOf n := by
  obtain ⟨kind, token, span, args, text⟩ := n
  cases args with
  | nil => exact absurd rfl hargs
  | cons n ns => simp only [resolveTree]

/-- A node without arguments is resolved by its kind. -/
theorem resolveTree_of_leaf (r : Resolver) (query : Node → Recursive Evaluator) (schema : Schema)
    {n : Node} (hargs : n.args = []) :
    r.resolveTree query schema n = r.leafOf query schema n := by
  obtain ⟨kind, token, span, args, text⟩ := n
  cases hargs
  simp only [resolveTree]

end Resolver
end SqlResolution
