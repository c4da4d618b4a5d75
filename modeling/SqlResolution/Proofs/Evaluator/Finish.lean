import SqlResolution.Proofs.Walk.Aggregates
import SqlResolution.Proofs.Walk.Settling

/-!
# Finished evaluators

Finishing folds an evaluator, keeps its results, or leaves it as it is. What it made is never folded
into another constant and its results are never kept twice, so the tree is the same when it is
finished again.
-/
namespace SqlResolution

/-- What a tree shows of one of its evaluators. -/
structure Label where
  name : String
  type : ColumnType
  traits : Traits
  kind : EvaluatorKind
  arity : Nat
  /-- The value of a constant. -/
  constant? : Option Value

namespace Evaluator

variable {settings : Settings} {b b' : BindTable} {row : Row} {e r : Evaluator} {t : ColumnType}
  {v : Value}

def label (e : Evaluator) : Label :=
  ⟨e.name, e.type, e.traits, e.kind, e.args.length, e.constantValue?⟩

/-- The labels of a tree, root first and arguments from left to right. -/
def outline (e : Evaluator) : List Label := e.nodes.map label

theorem outline_eq (e : Evaluator) :
    e.outline = e.label :: (e.args.map outline).flatten := by
  rw [outline, nodes_eq, nodesOf_eq_flatMap, List.map_cons, List.map_flatMap, List.flatMap_def]
  rfl

@[simp] theorem name_eval (b : BindTable) (row : Row) (e : Evaluator) :
    (e.eval b row).2.name = e.name := by
  cases e with
  | memo cache inner =>
    rw [eval]
    split <;> rfl
  | _ => simp only [eval, name]

@[simp] theorem constantValue?_eval (b : BindTable) (row : Row) (e : Evaluator) :
    (e.eval b row).2.constantValue? = e.constantValue? := by
  cases e with
  | memo cache inner =>
    rw [eval]
    split <;> rfl
  | _ => simp only [eval, constantValue?]

theorem label_eval (b : BindTable) (row : Row) (e : Evaluator) :
    (e.eval b row).2.label = e.label := by
  have harity : (e.eval b row).2.args.length = e.args.length := by
    rcases args_eval b row e with hargs | hargs <;> simp [hargs]
  simp [label, type_eval, traits_eval, kind_eval, harity]

/-- Evaluation may change the state of the evaluators in a tree, but not what the tree shows. -/
theorem outline_eval (b : BindTable) (row : Row) (e : Evaluator) :
    (e.eval b row).2.outline = e.outline := by
  induction e using induction_args with
  | h e ih =>
    rw [outline_eq, outline_eq e, label_eval]
    rcases args_eval b row e with hargs | hargs
    · rw [hargs]
    · have hmap : e.args.map (outline ∘ fun arg => (arg.eval b row).2) = e.args.map outline :=
        List.map_congr_left ih
      rw [hargs, List.map_map, hmap]

theorem outline_memo (cache : Option (Int64 × Value)) (e : Evaluator) :
    (memo cache e).outline = (memo cache e).label :: e.outline := by
  simp [outline_eq (memo cache e), args]

/-- An evaluator becomes one thing only. -/
theorem Finishes.eq (h : Finishes settings b e r) : e.finish settings b = r := by
  have hfinish := finishes_finish settings b e
  generalize e.finish settings b = r' at hfinish
  cases h <;> cases hfinish <;> first | rfl | simp_all

theorem finish_constant (settings : Settings) (b : BindTable) (t : ColumnType) (v : Value) :
    (constant t v).finish settings b = constant t v := by
  cases hfolds : (constant t v).folds settings with
  | true => exact (Finishes.unfoldable hfolds (by simp [isFoldable, constantValue?])).eq
  | false =>
    refine (Finishes.unchanged hfolds fun h => ?_).eq
    simpa [traits, Traits.none] using h.asks

/-- What keeps results does not ask for it. -/
theorem finish_memo (hfolds : e.folds settings = false) (b : BindTable)
    (cache : Option (Int64 × Value)) :
    (memo cache e).finish settings b = memo cache e :=
  (Finishes.unchanged (by simpa [folds, isConstant, traits] using hfolds) fun h => by
    simpa [traits] using h.asks).eq

/-- An evaluator that was evaluated is folded, or not folded, as before. -/
theorem finish_eval (hfolds : e.folds settings = true) (hfoldable : e.isFoldable = true)
    (hconforms : ((e.eval b .empty).2.value b' .empty).conformsTo e.type = false) :
    (e.eval b .empty).2.finish settings b' = ((e.eval b .empty).2.eval b' .empty).2 := by
  refine (Finishes.evaluated ?_ ?_ ?_).eq
  · simpa [folds, isConstant, traits_eval] using hfolds
  · simpa [isFoldable, traits_eval, type_eval] using hfoldable
  · rwa [type_eval]

/-- An evaluator that is finished stays as it is when it is finished again, or is evaluated once
more, if it would yield the same on the empty row. -/
theorem finish_finish (hstable : (e.eval b .empty).2.value b' .empty = e.value b .empty) :
    (e.finish settings b).finish settings b' = e.finish settings b ∨
      (e.finish settings b).finish settings b' = ((e.finish settings b).eval b' .empty).2 := by
  have hfinish := finishes_finish settings b e
  generalize e.finish settings b = r at hfinish
  cases hfinish with
  | folded => exact .inl (finish_constant settings b' _ _)
  | evaluated hfolds hfoldable hconforms =>
    exact .inr (finish_eval hfolds hfoldable (by rwa [hstable]))
  | unfoldable hfolds hfoldable => exact .inl (Finishes.unfoldable hfolds hfoldable).eq
  | memoized hfolds => exact .inl (finish_memo hfolds b' none)
  | unchanged hfolds hmemoizes => exact .inl (Finishes.unchanged hfolds hmemoizes).eq

theorem outline_finish_finish
    (hstable : (e.eval b .empty).2.value b' .empty = e.value b .empty) :
    ((e.finish settings b).finish settings b').outline = (e.finish settings b).outline := by
  obtain hsame | hevaluated := finish_finish hstable
  · rw [hsame]
  · rw [hevaluated, outline_eval]

/-- A tree is smaller than with its results kept, so what was not asked to keep them does not. -/
theorem ne_memo_of_outline_eq (h : r.outline = e.outline) : r ≠ memo none e := by
  rintro rfl
  have hlength := congrArg List.length h
  simp [outline_memo] at hlength

theorem finish_eq_memo_iff :
    e.finish settings b = memo none e ↔ e.folds settings = false ∧ e.Memoizes settings := by
  refine ⟨fun h => ?_, fun ⟨hfolds, hmemoizes⟩ => (Finishes.memoized hfolds hmemoizes).eq⟩
  have hfinish := finishes_finish settings b e
  generalize e.finish settings b = r at h hfinish
  cases hfinish with
  | folded => cases h
  | evaluated => exact absurd h (ne_memo_of_outline_eq (outline_eval b .empty e))
  | unfoldable | unchanged => exact absurd h (ne_memo_of_outline_eq rfl)
  | memoized hfolds hmemoizes => exact ⟨hfolds, hmemoizes⟩

/-- Only constants become constants, and what is folded to its value on the empty row. -/
theorem finish_eq_constant_iff : e.finish settings b = constant t v ↔
    t = e.type ∧ v = e.value b .empty ∧
      (e = constant t v ∨
        e.folds settings = true ∧ e.isFoldable = true ∧ v.conformsTo t = true) := by
  constructor
  · intro h
    have hfinish := finishes_finish settings b e
    generalize e.finish settings b = r at h hfinish
    cases hfinish with
    | folded hfolds hfoldable hconforms =>
      cases h
      exact ⟨rfl, rfl, .inr ⟨hfolds, hfoldable, hconforms⟩⟩
    | evaluated hfolds hfoldable =>
      -- Evaluation makes no constant of what is none, and constants are not folded.
      have hconstant : e.constantValue? = some v := by
        rw [← constantValue?_eval b .empty e, h]
        rfl
      simp [isFoldable, hconstant] at hfoldable
    | unfoldable | unchanged => simp [h, type]
    | memoized => cases h
  · rintro ⟨rfl, rfl, hconstant | ⟨hfolds, hfoldable, hconforms⟩⟩
    · exact (congrArg (finish settings b) hconstant).trans (finish_constant settings b _ _)
    · exact (Finishes.folded hfolds hfoldable hconforms).eq

/-- Finishing keeps the type of an evaluator. What was finished stays as it is when it is finished
again, or is evaluated once more, and the tree shows the same, if the value on the empty row stays
the same. The results of an evaluator are kept exactly where its kind, its type and the settings
allow it, it asks for it and it is not folded. It becomes a constant only of its value on the empty
row: where it is that constant, or where it is folded and the value represents its type. -/
theorem finish_idempotent (settings : Settings) {b b' : BindTable} {e : Evaluator}
    (hstable : (e.eval b .empty).2.value b' .empty = e.value b .empty) :
    (e.finish settings b).type = e.type ∧
      ((e.finish settings b).finish settings b' = e.finish settings b ∨
        (e.finish settings b).finish settings b' = ((e.finish settings b).eval b' .empty).2) ∧
      ((e.finish settings b).finish settings b').outline = (e.finish settings b).outline ∧
      (e.finish settings b = memo none e ↔ e.folds settings = false ∧ e.Memoizes settings) ∧
      ∀ t v, e.finish settings b = constant t v ↔ t = e.type ∧ v = e.value b .empty ∧
        (e = constant t v ∨
          e.folds settings = true ∧ e.isFoldable = true ∧ v.conformsTo t = true) :=
  ⟨type_finish settings b e, finish_finish hstable, outline_finish_finish hstable,
    finish_eq_memo_iff, fun _ _ => finish_eq_constant_iff⟩

/-- An INT made outside the library that yields one value, after some evaluations. -/
def fixed (traits : Traits) (v : Value) (calls : Nat) : Evaluator :=
  custom ⟨"fixed", .int, traits, .scalar, fun _ _ => v⟩ calls []

/-- The sum of two constants becomes a constant. A constant whose value is no INT stays what it is,
evaluated once more each time. An evaluator that asks for it has its results kept. -/
theorem finish_idempotent_sum :
    let sum : Evaluator :=
      .scalar (.arithmetic .add .int) [.constant .int (.int 1), .constant .int (.int 2)]
    let text := fixed { Traits.none with constant := true } (.str "x")
    let cached := fixed { Traits.none with memoize := true } (.int 7) 0
    let finished (e : Evaluator) := e.finish .default .empty
    (sum.eval .empty .empty).2.value .empty .empty = sum.value .empty .empty ∧
      finished sum = constant .int (.int 3) ∧
      ((text 0).eval .empty .empty).2.value .empty .empty = (text 0).value .empty .empty ∧
      finished (text 0) = text 1 ∧ finished (text 1) = text 2 ∧
      (text 2).outline = (text 1).outline ∧
      (cached.eval .empty .empty).2.value .empty .empty = cached.value .empty .empty ∧
      finished cached = memo none cached := by
  intro sum text cached finished
  have hsum : (sum.eval .empty .empty).2.value .empty .empty = sum.value .empty .empty := rfl
  have htext : ((text 0).eval .empty .empty).2.value .empty .empty =
      (text 0).value .empty .empty := rfl
  have hcached : (cached.eval .empty .empty).2.value .empty .empty = cached.value .empty .empty :=
    rfl
  obtain ⟨-, -, -, -, hconstant⟩ := finish_idempotent .default hsum
  obtain ⟨-, -, hsame, -, -⟩ := finish_idempotent .default htext
  obtain ⟨-, -, -, hmemo, -⟩ := finish_idempotent .default hcached
  have hfolded : finished sum = constant .int (.int 3) :=
    (hconstant _ _).mpr ⟨rfl, rfl, .inr ⟨by decide, by decide, rfl⟩⟩
  have hkept : finished cached = memo none cached :=
    hmemo.mpr ⟨by decide, by decide, by decide, by decide, by decide⟩
  exact ⟨hsum, hfolded, htext, rfl, rfl, hsame, hcached, hkept⟩

end Evaluator
end SqlResolution
