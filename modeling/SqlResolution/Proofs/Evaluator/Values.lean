import SqlResolution.Fold
import SqlResolution.Overload.Adjust
import SqlResolution.Overload.Ranking
import SqlResolution.Proofs.Variables

/-!
# What evaluation reads of a bind table

Evaluation reads the values of variables, and not their types. So an evaluator has the same value, is
matched and brought into form for a parameter alike, and is finished alike by tables in which the
variables have the same values. A table that settles is one of these.
-/
namespace SqlResolution

/-- Tables in which each variable has the same value. -/
def BindTable.SameValues (b b' : BindTable) : Prop := ∀ x, b.valueOf x = b'.valueOf x

theorem BindTable.Settles.sameValues {b b' : BindTable} (h : b.Settles b') : b.SameValues b' :=
  fun x => (h.valueOf x).symm

variable {b b' : BindTable}

namespace Evaluator

mutual

theorem eval_congr (h : b.SameValues b') (row : Row) : (e : Evaluator) → e.eval b row = e.eval b' row
  | slotLink slot type => congrArg (·, slotLink slot type) (h (.slot slot))
  | namedLink name type => congrArg (·, namedLink name type) (h (.named name))
  | adapt _ _ _ arg | member _ _ arg | cast _ _ arg | memo _ arg => by
    simp only [eval, eval_congr h row arg]
  | scalar _ args | concat _ args => by simp only [eval, evalAll_congr h row args]
  | constant _ _ | typeName _ | column _ _ _ | cursor _ | count _ | total _ _ _ | rowNumber _
  | rank | runningAverage _ _ _ | randomInt _ | randomDouble _ | now _ | custom _ _ _ => by
    simp only [eval]

theorem evalAll_congr (h : b.SameValues b') (row : Row) :
    (es : List Evaluator) → evalAll b row es = evalAll b' row es
  | [] => rfl
  | e :: es => by simp only [evalAll, eval_congr h row e, evalAll_congr h row es]

end

theorem evalConstant_congr (h : b.SameValues b') : evalConstant b = evalConstant b' :=
  funext (eval_congr h .empty)

theorem fold_congr (h : b.SameValues b') : fold b = fold b' := by
  funext e
  rw [fold, fold, evalConstant_congr h]

theorem finish_congr (h : b.SameValues b') (settings : Settings) :
    finish settings b = finish settings b' := by
  funext e
  rw [finish, finish, fold_congr h]

end Evaluator

theorem rewriteAll_congr (h : b.SameValues b') :
    Overload.rewriteAll b = Overload.rewriteAll b' := by
  have hrewrite : rewriteArgument b = rewriteArgument b' := by
    funext target e position
    rw [rewriteArgument, rewriteArgument, Evaluator.evalConstant_congr h]
  funext i ps args
  induction ps generalizing i args with
  | nil => rfl
  | cons p ps ih =>
    rw [Overload.rewriteAll, Overload.rewriteAll, hrewrite]
    split
    · exact ih _ _
    · rfl

theorem scan_congr (h : b.SameValues b') (isCast inWindow : Bool) :
    scan b isCast inWindow = scan b' isCast inWindow := by
  have hmatch : ∀ p charFitsString isCastTarget,
      Parameter.matchArgument p charFitsString isCastTarget b =
        p.matchArgument charFitsString isCastTarget b' := by
    intro p charFitsString isCastTarget
    funext e
    unfold Parameter.matchArgument Parameter.coercionDistance
    rw [Evaluator.evalConstant_congr h]
  have hall : ∀ charFitsString i ps es s,
      Overload.matchAll charFitsString isCast b i ps es s =
        Overload.matchAll charFitsString isCast b' i ps es s := by
    intro charFitsString i ps es s
    induction ps generalizing i es s with
    | nil => rfl
    | cons p ps ih =>
      cases es with
      | nil => rfl
      | cons e es => simp only [Overload.matchAll, hmatch, ih]
  funext i os t args
  induction os generalizing i t args with
  | nil => rfl
  | cons o os ih =>
    have hscore : o.score b isCast inWindow args = o.score b' isCast inWindow args := by
      rw [Overload.score, Overload.score, hall]
    rw [scan, scan, hscore]
    simp only [ih]

end SqlResolution
