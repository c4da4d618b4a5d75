import SqlResolution.Proofs.Overload.Repetition

/-!
# The calls of a resolution

The calls of a tree in the order in which they are resolved, each with what it is given. A second
resolution of the tree makes the same calls up to the first that goes to another overload.
-/
namespace SqlResolution

open Steps

/-- A call, with the arguments it is given and the context it starts in. -/
structure Site where
  node : Node
  args : Args
  context : Context

namespace Site

/-- The same call with the types that a table has for the variables. -/
def typedBy (b : BindTable) (σ : Site) : Site :=
  ⟨σ.node, σ.args.typedBy b, σ.context.withTable b⟩

/-- An argument is a link to a variable that has no type yet. -/
def LinksUntyped (σ : Site) : Prop := ∃ slot, .slotLink slot .undefined ∈ σ.args.evaluators

end Site

/-- A query is compiled where no timestamp is required. -/
def Effects.openQuery (s : Effects) (text : String) : Effects :=
  let s := s.pushTimestampRequired false
  s.note (.compiled text s.context.timestampRequired)

namespace Resolver

/-- The overload, by its place, that a call goes to. -/
def choice? (r : Resolver) (σ : Site) : Option (Option Nat) :=
  r.catalog.choice? σ.node.token σ.args σ.context

/-- The calls that a node without arguments makes, where `inQuery` are those of a query node. -/
def sitesOfLeaf (inQuery : Node → Effects → List Site) (n : Node) (s : Effects) : List Site :=
  match n.kind with
  | .query => inQuery n s
  | .function | .operation => [⟨n, .empty, s.context⟩]
  | .column | .constant | .bindVariable | .memberAccess => []

mutual

/-- The calls of a tree, each after those of its arguments. A resolution that fails makes the calls
up to its failure. -/
def sitesOf (r : Resolver) (query : Node → Recursive Evaluator)
    (inQuery : Node → Effects → List Site) (schema : Schema) : Node → Effects → List Site
  | ⟨kind, token, span, [], text⟩, s => sitesOfLeaf inQuery ⟨kind, token, span, [], text⟩ s
  | ⟨kind, token, span, n :: ns, text⟩, s =>
    r.sitesOfAll query inQuery schema (n :: ns) s ++
      match r.resolveTrees query schema (n :: ns) s with
      | (.ok es, t) =>
        [⟨⟨kind, token, span, n :: ns, text⟩, ⟨es, (n :: ns).map (·.span)⟩, t.context⟩]
      | (.error _, _) => []

/-- The calls of trees one after another. -/
def sitesOfAll (r : Resolver) (query : Node → Recursive Evaluator)
    (inQuery : Node → Effects → List Site) (schema : Schema) : List Node → Effects → List Site
  | [], _ => []
  | n :: ns, s =>
    r.sitesOf query inQuery schema n s ++
      match r.resolveTree query schema n s with
      | (.ok _, t) => r.sitesOfAll query inQuery schema ns t
      | (.error _, _) => []

end

/-- The calls of the expressions that a plan asks for, where `inNode` are those of one. -/
def sitesOfPlan (resolve : Node → Schema → Recursive Evaluator)
    (inNode : Node → Schema → Effects → List Site) : Plan → Effects → List Site
  | .finish _, _ | .fail _, _ => []
  | .resolve n schema next, s =>
    inNode n schema s ++
      match resolve n schema s with
      | (.ok e, t) => sitesOfPlan resolve inNode (next (.ok e)) (t.note (.resolved e))
      | (.error error, t) => sitesOfPlan resolve inNode (next (.error error)) t
  | .pushTimestampRequired required next, s =>
    sitesOfPlan resolve inNode next (s.pushTimestampRequired required)
  | .popTimestampRequired next, s => sitesOfPlan resolve inNode next s.popTimestampRequired
  | .inspect next, s => sitesOfPlan resolve inNode (next s.context) s

/-- The calls that the first of the compilers makes of a query node. -/
def sitesOfQuery (r : Resolver) : List Compiler → Node → Effects → List Site
  | [], _, _ => []
  | compiler :: inner, n, s =>
    match n.query with
    | none => []
    | some text =>
      sitesOfPlan (fun n schema => r.resolveTree (r.queryOf inner) schema n)
        (fun n schema => r.sitesOf (r.queryOf inner) (r.sitesOfQuery inner) schema n)
        (compiler text) (s.openQuery text)

/-- The calls of a walk over a tree, with those of its queries. -/
def sites (r : Resolver) (root : Node) (schema : Schema) (w : Walk) : List Site :=
  r.sitesOf (r.queryOf r.compilers) (r.sitesOfQuery r.compilers) schema root w.effects

variable {r : Resolver} {b : BindTable} {calls calls' rest rest' : List Site} {P Q : Prop}

/-- How the calls of a second resolution go on after those of a first: all of them are made again
and go to the same overloads, so that something holds, or there is a first that goes to another
one. -/
inductive Again (r : Resolver) (b : BindTable) (calls calls' : List Site) (P : Prop) : Prop
  | same (choices : ∀ σ ∈ calls, r.choice? (σ.typedBy b) = r.choice? σ)
      (retyped : calls' = calls.map (Site.typedBy b)) (holds : P)
  | differs {i : Nat} {σ : Site} (first : calls[i]? = some σ)
      (second : calls'[i]? = some (σ.typedBy b)) (untyped : σ.LinksUntyped)
      (changes : r.choice? (σ.typedBy b) ≠ r.choice? σ)

namespace Again

theorem mono (h : Again r b calls calls' P) (hPQ : P → Q) : Again r b calls calls' Q := by
  cases h with
  | same choices retyped holds => exact .same choices retyped (hPQ holds)
  | differs first second untyped changes => exact .differs first second untyped changes

theorem append (h : Again r b calls calls' P) (hrest : P → Again r b rest rest' Q) :
    Again r b (calls ++ rest) (calls' ++ rest') Q := by
  cases h with
  | same choices retyped holds =>
    subst retyped
    cases hrest holds with
    | same choices' retyped' holds' =>
      refine .same (fun σ hσ => ?_) (by rw [retyped', List.map_append]) holds'
      obtain hσ | hσ := List.mem_append.mp hσ
      · exact choices σ hσ
      · exact choices' σ hσ
    | @differs i σ first second untyped changes =>
      refine .differs (i := calls.length + i) ?_ ?_ untyped changes
      · rw [List.getElem?_append_right (Nat.le_add_right _ _), Nat.add_sub_cancel_left, first]
      · rw [List.getElem?_append_right (by simp), List.length_map, Nat.add_sub_cancel_left, second]
  | @differs i σ first second untyped changes =>
    refine .differs (i := i) ?_ ?_ untyped changes
    · rw [List.getElem?_append_left (List.getElem?_eq_some_iff.mp first).1, first]
    · rw [List.getElem?_append_left (List.getElem?_eq_some_iff.mp second).1, second]

/-- The overloads are the same exactly where they are for each call that types a variable, and all
is done again then. -/
theorem choices_iff (h : Again r b calls calls' P) :
    (calls'.map r.choice? = calls.map r.choice? ↔
        ∀ σ ∈ calls, σ.LinksUntyped → r.choice? (σ.typedBy b) = r.choice? σ) ∧
      ((∀ σ ∈ calls, σ.LinksUntyped → r.choice? (σ.typedBy b) = r.choice? σ) → P) := by
  cases h with
  | same choices retyped holds =>
    refine ⟨⟨fun _ σ hσ _ => choices σ hσ, fun _ => ?_⟩, fun _ => holds⟩
    rw [retyped, List.map_map]
    exact List.map_congr_left choices
  | @differs i σ first second untyped changes =>
    have hnot : ¬∀ σ ∈ calls, σ.LinksUntyped → r.choice? (σ.typedBy b) = r.choice? σ :=
      fun hall => changes (hall σ (List.mem_of_getElem? first) untyped)
    refine ⟨⟨fun heq => ?_, fun hall => absurd hall hnot⟩, fun hall => absurd hall hnot⟩
    have hplace := congrArg (·[i]?) heq
    simp only [List.getElem?_map, first, second, Option.map_some] at hplace
    exact absurd (Option.some.inj hplace) changes

end Again

end Resolver
end SqlResolution
