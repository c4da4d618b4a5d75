import SqlResolution.Proofs.Evaluator.Exposure
import SqlResolution.Proofs.Evaluator.Finish
import SqlResolution.Proofs.Evaluator.Replacement
import SqlResolution.Proofs.Value.Adapter
import SqlResolution.Proofs.Value.Piece

/-!
# Concatenated values

The text of a concatenation on each row is made of the values of its arguments there. So it stays
the same when the concatenation is finished, and two concatenations that are concatenated make the
text of all that they are made of.
-/
namespace SqlResolution.Evaluator

variable {b : BindTable} {rows : List Row} {e : Evaluator} {es fs : List Evaluator}
  {scales : TextScales}

/-! ### The values of several evaluators -/

theorem evalAll_append (b : BindTable) (row : Row) (es fs : List Evaluator) :
    evalAll b row (es ++ fs) =
      ((evalAll b row es).1 ++ (evalAll b row fs).1,
        (evalAll b row es).2 ++ (evalAll b row fs).2) := by
  induction es with
  | nil => rfl
  | cons e es ih => simp only [List.cons_append, evalAll, ih]

theorem evalRowsAll_append (b : BindTable) (rows : List Row) (es fs : List Evaluator) :
    evalRowsAll b rows (es ++ fs) =
      List.zipWith (· ++ ·) (evalRowsAll b rows es) (evalRowsAll b rows fs) := by
  induction rows generalizing es fs with
  | nil => rfl
  | cons row rows ih => simp only [evalRowsAll, evalAll_append, ih, List.zipWith_cons_cons]

theorem evalRowsAll_singleton (b : BindTable) (rows : List Row) (e : Evaluator) :
    evalRowsAll b rows [e] = (e.evalRows b rows).1.map fun v => [v] := by
  induction rows generalizing e with
  | nil => rfl
  | cons row rows ih =>
    rw [fst_evalRows_cons, List.map_cons, ← ih]
    rfl

theorem evalRowsAll_cons (b : BindTable) (rows : List Row) (e : Evaluator) (es : List Evaluator) :
    evalRowsAll b rows (e :: es) =
      List.zipWith (· :: ·) (e.evalRows b rows).1 (evalRowsAll b rows es) := by
  rw [← List.singleton_append, evalRowsAll_append, evalRowsAll_singleton, List.zipWith_map_left]
  rfl

/-- The value on a row is the one that a run over this row alone yields. -/
theorem value_eq_of_evalRows {row : Row} {v : Value} (h : (e.evalRows b [row]).1 = [v]) :
    e.value b row = v := by
  rw [fst_evalRows_cons] at h
  exact (List.cons.inj h).1

/-- An evaluator that is constant yields one value, whatever the rows and the variables are. -/
def YieldsOne (e : Evaluator) : Prop :=
  e.isConstant = true → ∃ v, ∀ b rows, (e.evalRows b rows).1 = rows.map fun _ => v

theorem yieldsOne_of_variable (h : e.isConstant = false) : e.YieldsOne := by
  intro hconstant
  rw [h] at hconstant
  cases hconstant

theorem FixesConstants.yieldsOne (h : e.FixesConstants) : e.YieldsOne := by
  intro hconstant
  refine ⟨e.value .empty .empty, fun b rows => ?_⟩
  rw [(h hconstant).evalRows_eq]
  exact List.map_congr_left fun row _ =>
    (h hconstant).value_of_isConstant b .empty row .empty hconstant

theorem yieldsOne_constant (type : ColumnType) (v : Value) : (constant type v).YieldsOne :=
  (FixesConstants.of_plain (by simp [Plain])).yieldsOne

/-- Constants yield the same values on all rows. -/
theorem exists_evalRowsAll_eq (h : ∀ e ∈ es, e.YieldsOne)
    (hconstant : ∀ e ∈ es, e.isConstant = true) :
    ∃ vs, ∀ b rows, evalRowsAll b rows es = rows.map fun _ => vs := by
  induction es with
  | nil =>
    refine ⟨[], fun b rows => ?_⟩
    induction rows with
    | nil => rfl
    | cons row rows ih => exact congrArg ([] :: ·) ih
  | cons e es ih =>
    obtain ⟨hhead, htail⟩ := List.forall_mem_cons.mp h
    obtain ⟨hconstant, hrest⟩ := List.forall_mem_cons.mp hconstant
    obtain ⟨v, hv⟩ := hhead hconstant
    obtain ⟨vs, hvs⟩ := ih htail hrest
    exact ⟨v :: vs, fun b rows => by
      rw [evalRowsAll_cons, hv, hvs, List.zipWith_map, List.zipWith_self]⟩

/-! ### Concatenations that are finished -/

/-- The values of an evaluator are the concatenations of the values of some others. -/
def Concatenates (scales : TextScales) (es : List Evaluator) (e : Evaluator) : Prop :=
  ∀ b rows, (e.evalRows b rows).1 =
    (evalRowsAll b rows es).map fun vs => .str (concatenation scales vs)

theorem concatenates_concat (scales : TextScales) (es : List Evaluator) :
    (concat scales es).Concatenates scales es := by
  intro b rows
  induction rows generalizing es with
  | nil => rfl
  | cons row rows ih =>
    rw [fst_evalRows_cons, evalRowsAll, List.map_cons, ← ih]
    simp only [value, Evaluator.eval]

/-- A concatenation of two concatenations is one of what both are of. -/
theorem Concatenates.append {ex ey : Evaluator} (hx : ex.Concatenates scales es)
    (hy : ey.Concatenates scales fs) (h : e.Concatenates scales [ex, ey]) :
    e.Concatenates scales (es ++ fs) := by
  intro b rows
  rw [h, evalRowsAll_cons, evalRowsAll_singleton, hx, hy, evalRowsAll_append, List.map_map,
    List.zipWith_map, List.map_zipWith, List.map_zipWith]
  refine congrArg (List.zipWith · _ _) (funext₂ fun vs ws => congrArg Value.str ?_)
  rw [concatenation_append]
  simp [Value.concatenation_eq]

theorem isConstant_concat (scales : TextScales) (es : List Evaluator) :
    (concat scales es).isConstant = (!es.isEmpty && es.all isConstant) := by
  rw [isConstant, traits, constant_inherited]

theorem isNonDeterministic_concat (scales : TextScales) (es : List Evaluator) :
    (concat scales es).isNonDeterministic = es.any isNonDeterministic := by
  rw [isNonDeterministic, traits, Traits.nonDeterministic_inherited, traitsOf_eq_map, List.any_map]
  rfl

/-- A concatenation that is constant is one of constants, so it yields one value. -/
theorem Concatenates.yieldsOne (h : e.Concatenates scales es) (hes : ∀ e ∈ es, e.YieldsOne)
    (hconstant : e.isConstant = true → ∀ e ∈ es, e.isConstant = true) : e.YieldsOne := by
  intro hfixed
  obtain ⟨vs, hvs⟩ := exists_evalRowsAll_eq hes (hconstant hfixed)
  exact ⟨_, fun b rows => by rw [h, hvs, List.map_map]; rfl⟩

/-- The constant that takes the place of a concatenation is one still. -/
theorem Concatenates.constant (h : e.Concatenates scales es) (hone : e.YieldsOne)
    (hconstant : e.isConstant = true) (type : ColumnType) (b : BindTable) :
    (Evaluator.constant type (e.value b .empty)).Concatenates scales es := by
  obtain ⟨v, hv⟩ := hone hconstant
  have hvalue : e.value b .empty = v := value_eq_of_evalRows (hv b [.empty])
  intro b rows
  rw [hvalue, maps_constant b type v e rows, ← h, hv, List.map_map]
  rfl

/-- A concatenation that is finished is one still, and yields one value where it is constant. -/
theorem concatenates_finish (hes : ∀ e ∈ es, e.YieldsOne) (settings : Settings) (b : BindTable) :
    ((concat scales es).finish settings b).Concatenates scales es ∧
      ((concat scales es).finish settings b).YieldsOne := by
  have hall : (concat scales es).isConstant = true → ∀ e ∈ es, e.isConstant = true := by
    intro hconstant
    rw [isConstant_concat, Bool.and_eq_true, List.all_eq_true] at hconstant
    exact hconstant.2
  have hself := concatenates_concat scales es
  have hfinish := finishes_finish settings b (concat scales es)
  generalize (concat scales es).finish settings b = r at hfinish
  cases hfinish with
  | folded hfolds _ _ =>
    exact ⟨hself.constant (hself.yieldsOne hes hall) (isConstant_of_folds hfolds) _ b,
      yieldsOne_constant _ _⟩
  | evaluated _ _ conforms =>
    rw [value_concat] at conforms
    cases conforms
  | memoized _ memoizes =>
    have hasks := memoizes.asks
    rw [traits, Traits.memoize_inherited] at hasks
    cases hasks
  | unfoldable | unchanged => exact ⟨hself, hself.yieldsOne hes hall⟩

end SqlResolution.Evaluator
