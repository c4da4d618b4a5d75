import SqlResolution.Proofs.Steps
import SqlResolution.Proofs.Walk.Recursive

/-!
# The journal of a resolution

A resolution adds to the journal and does not read it. What was noted before it stays in front and
changes nothing of what it does.
-/
namespace SqlResolution

open Steps

/-- The same effects after some that were noted before. -/
def Effects.after (entries : List JournalEntry) (s : Effects) : Effects :=
  { s with journal := entries ++ s.journal }

variable {entries : List JournalEntry}

theorem Effects.note_after (s : Effects) (entry : JournalEntry) :
    (s.after entries).note entry = (s.note entry).after entries := by
  simp only [note, after, List.append_assoc]

namespace Recursive

theorem commutes_ofResolution (step : Resolution α) :
    Commutes (Effects.after entries) (ofResolution step) := fun _ => rfl

theorem commutes_capture {step : Recursive α} (hstep : Commutes (Effects.after entries) step) :
    Commutes (Effects.after entries) (capture step) := by
  intro s
  unfold capture
  rw [hstep s]
  rfl

end Recursive

namespace Resolver

variable {r : Resolver} {query : Node → Recursive Evaluator}

theorem commutes_leafOf (hquery : ∀ n, Commutes (Effects.after entries) (query n))
    (schema : Schema) (n : Node) :
    Commutes (Effects.after entries) (r.leafOf query schema n) := by
  unfold leafOf
  cases n.kind with
  | column => exact .liftExcept _
  | constant => exact .liftExcept _
  | bindVariable => exact .bind_get (fun _ => rfl) fun _ => .liftExcept _
  | memberAccess => exact .pure _
  | query => exact hquery n
  | function => exact Recursive.commutes_ofResolution _
  | operation => exact Recursive.commutes_ofResolution _

theorem commutes_callOf (r : Resolver) (n : Node) (es : List Evaluator) :
    Commutes (Effects.after entries) (r.callOf n es) := by
  unfold callOf
  dsimp only
  split
  · exact .throw _
  · exact Recursive.commutes_ofResolution _

mutual

theorem commutes_resolveTree (r : Resolver)
    (hquery : ∀ n, Commutes (Effects.after entries) (query n)) (schema : Schema) :
    (n : Node) → Commutes (Effects.after entries) (r.resolveTree query schema n)
  | ⟨kind, token, span, [], text⟩ => by
    rw [resolveTree]
    exact commutes_leafOf hquery schema _
  | ⟨kind, token, span, n :: ns, text⟩ => by
    rw [resolveTree]
    exact .bind (commutes_resolveTrees r hquery schema (n :: ns)) (r.commutes_callOf _)

theorem commutes_resolveTrees (r : Resolver)
    (hquery : ∀ n, Commutes (Effects.after entries) (query n)) (schema : Schema) :
    (ns : List Node) → Commutes (Effects.after entries) (r.resolveTrees query schema ns)
  | [] => .pure _
  | n :: ns => by
    rw [resolveTrees]
    exact .bind (commutes_resolveTree r hquery schema n) fun _ =>
      .bind (commutes_resolveTrees r hquery schema ns) fun _ => .pure _

end

theorem commutes_schemaOf {resolve : Node → Schema → Recursive Evaluator}
    (hresolve : ∀ n schema, Commutes (Effects.after entries) (resolve n schema)) (plan : Plan) :
    Commutes (Effects.after entries) (schemaOf resolve plan) := by
  induction plan with
  | finish schema => exact .pure _
  | fail e => exact .throw _
  | resolve n schema next ih =>
    refine .bind (Recursive.commutes_capture (hresolve n schema)) fun result => ?_
    cases result with
    | error e => exact ih _
    | ok e => exact .bind (.modify fun s => s.note_after _) fun _ => ih _
  | pushTimestampRequired required next ih => exact .bind (.modify fun _ => rfl) fun _ => ih
  | popTimestampRequired next ih => exact .bind (.modify fun _ => rfl) fun _ => ih
  | inspect next ih => exact .bind_get (fun _ => rfl) fun s => ih s.context

theorem commutes_cursorOf {resolve : Node → Schema → Recursive Evaluator}
    (hresolve : ∀ n schema, Commutes (Effects.after entries) (resolve n schema))
    (compiler : Compiler) (text : String) :
    Commutes (Effects.after entries) (cursorOf resolve compiler text) := by
  refine .bind (.modify fun _ => rfl) fun _ => ?_
  refine .bind (.modify fun s => s.note_after _) fun _ => ?_
  refine .bind (Recursive.commutes_capture (commutes_schemaOf hresolve _)) fun schema => ?_
  exact .bind (.modify fun _ => rfl) fun _ => .bind (.liftExcept schema) fun _ => .pure _

theorem commutes_queryOf (r : Resolver) (compilers : List Compiler) (n : Node) :
    Commutes (Effects.after entries) (r.queryOf compilers n) := by
  induction compilers generalizing n with
  | nil => exact .throw _
  | cons compiler inner ih =>
    rw [queryOf]
    cases n.query with
    | none => exact .throw _
    | some text =>
      exact commutes_cursorOf (fun n schema => r.commutes_resolveTree ih schema n) compiler text

end Resolver
end SqlResolution
