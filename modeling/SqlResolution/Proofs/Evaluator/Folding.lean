import SqlResolution.Fold

/-!
# What evaluating and finishing make of an evaluator

An evaluation changes the state of an evaluator, never its traits or its type. Folding replaces it by
a constant, evaluates it or leaves it as it is, and finishing folds it, keeps its results or leaves
it as it is.
-/
namespace SqlResolution.Evaluator

mutual

theorem traits_eval (binds : BindTable) (row : Row) :
    (e : Evaluator) → (e.eval binds row).2.traits = e.traits
  | constant _ _ | typeName _ | column _ _ _ | slotLink _ _ | namedLink _ _ | cursor _ | count _
  | rowNumber _ | rank | runningAverage _ _ _ | randomInt _ | randomDouble _ | now _
  | custom _ _ _ | total _ _ _ => by simp only [eval, traits]
  | adapt _ _ _ arg | member _ _ arg | cast _ _ arg => by
    have harg := traits_eval binds row arg
    simp only [eval, traits, harg]
  | scalar _ args | concat _ args => by
    have hargs := traitsOf_evalAll binds row args
    simp only [eval, traits, hargs]
  | memo cache inner => by
    have hinner := traits_eval binds row inner
    rw [eval]
    split
    · rfl
    · simp only [traits, hinner]

theorem traitsOf_evalAll (binds : BindTable) (row : Row) :
    (es : List Evaluator) → traitsOf (evalAll binds row es).2 = traitsOf es
  | [] => rfl
  | e :: es => by
    have he := traits_eval binds row e
    have hes := traitsOf_evalAll binds row es
    simp only [evalAll, traitsOf, he, hes]

end

theorem type_eval (binds : BindTable) (row : Row) :
    (e : Evaluator) → (e.eval binds row).2.type = e.type
  | constant _ _ | typeName _ | column _ _ _ | slotLink _ _ | namedLink _ _ | cursor _ | count _
  | rowNumber _ | rank | runningAverage _ _ _ | randomInt _ | randomDouble _ | now _
  | custom _ _ _ | total _ _ _ | adapt _ _ _ _ | member _ _ _ | cast _ _ _ | scalar _ _
  | concat _ _ => by simp only [eval, type]
  | memo cache inner => by
    have hinner := type_eval binds row inner
    rw [eval]
    split
    · rfl
    · simp only [type, hinner]

/-- What becomes of an evaluator that is folded. -/
inductive FoldsTo (b : BindTable) (e : Evaluator) : Evaluator → Prop
  | folded (foldable : e.isFoldable = true)
      (conforms : (e.value b .empty).conformsTo e.type = true) :
      FoldsTo b e (constant e.type (e.value b .empty))
  | evaluated (foldable : e.isFoldable = true)
      (conforms : (e.value b .empty).conformsTo e.type = false) :
      FoldsTo b e (e.eval b .empty).2
  | unfoldable (foldable : e.isFoldable = false) : FoldsTo b e e

theorem foldsTo_fold (b : BindTable) (e : Evaluator) : FoldsTo b e (e.fold b) := by
  unfold fold evalConstant
  split
  · rename_i hfoldable
    dsimp only
    rw [type_eval]
    split
    · rename_i hconforms
      exact .folded hfoldable hconforms
    · rename_i hconforms
      exact .evaluated hfoldable (Bool.eq_false_iff.mpr hconforms)
  · rename_i hfoldable
    exact .unfoldable (Bool.eq_false_iff.mpr hfoldable)

theorem type_fold (binds : BindTable) (e : Evaluator) : (e.fold binds).type = e.type := by
  have hfolds := foldsTo_fold binds e
  generalize e.fold binds = r at hfolds ⊢
  cases hfolds with
  | folded => rfl
  | evaluated => exact type_eval binds .empty e
  | unfoldable => rfl

/-- Whether finishing an evaluator folds it, where it can be folded at all. -/
def folds (settings : Settings) (e : Evaluator) : Bool :=
  settings.foldConstants && e.isConstant && !e.traits.extendedOps

/-- An evaluator whose results can be kept, and that asks for it. -/
structure Memoizes (settings : Settings) (e : Evaluator) : Prop where
  memoize : settings.memoize = true
  kind : e.kind = .scalar
  asks : e.traits.memoize = true
  type : e.type.tag.isMemoizable = true

/-- What becomes of an evaluator that is finished. -/
inductive Finishes (settings : Settings) (b : BindTable) (e : Evaluator) : Evaluator → Prop
  | folded (folds : e.folds settings = true) (foldable : e.isFoldable = true)
      (conforms : (e.value b .empty).conformsTo e.type = true) :
      Finishes settings b e (constant e.type (e.value b .empty))
  | evaluated (folds : e.folds settings = true) (foldable : e.isFoldable = true)
      (conforms : (e.value b .empty).conformsTo e.type = false) :
      Finishes settings b e (e.eval b .empty).2
  | unfoldable (folds : e.folds settings = true) (foldable : e.isFoldable = false) :
      Finishes settings b e e
  | memoized (folds : e.folds settings = false) (memoizes : e.Memoizes settings) :
      Finishes settings b e (memo none e)
  | unchanged (folds : e.folds settings = false) (memoizes : ¬e.Memoizes settings) :
      Finishes settings b e e

theorem finishes_finish (settings : Settings) (b : BindTable) (e : Evaluator) :
    Finishes settings b e (e.finish settings b) := by
  unfold finish
  split
  · rename_i hfolds
    have hfolded := foldsTo_fold b e
    generalize e.fold b = r at hfolded ⊢
    cases hfolded with
    | folded foldable conforms => exact .folded hfolds foldable conforms
    | evaluated foldable conforms => exact .evaluated hfolds foldable conforms
    | unfoldable foldable => exact .unfoldable hfolds foldable
  · rename_i hfolds
    have hfolds : e.folds settings = false := Bool.eq_false_iff.mpr hfolds
    split
    · rename_i hasks
      simp only [Bool.and_eq_true, beq_iff_eq] at hasks
      obtain ⟨⟨hmemoize, hkind⟩, hasks⟩ := hasks
      unfold memoized
      split
      · rename_i htype
        exact .memoized hfolds ⟨hmemoize, hkind, hasks, htype⟩
      · rename_i htype
        exact .unchanged hfolds fun h => htype h.type
    · rename_i hasks
      refine .unchanged hfolds fun h => hasks ?_
      simp [h.memoize, h.kind, h.asks]

/-- Only constants are folded. -/
theorem isConstant_of_folds {settings : Settings} {e : Evaluator} (h : e.folds settings = true) :
    e.isConstant = true := by
  simp only [folds, Bool.and_eq_true] at h
  exact h.1.2

theorem type_finish (settings : Settings) (binds : BindTable) (e : Evaluator) :
    (e.finish settings binds).type = e.type := by
  have hfinish := finishes_finish settings binds e
  generalize e.finish settings binds = r at hfinish ⊢
  cases hfinish with
  | evaluated => exact type_eval binds .empty e
  | folded | unfoldable | memoized | unchanged => rfl

end SqlResolution.Evaluator
