import SqlResolution.Proofs.Builtin.Call
import SqlResolution.Proofs.Walk.Calls

/-!
# Fixed values of the builtins

Every constant that a tree over the builtins resolves to is plain, and so is every evaluator that is
fixed for an execution: nothing random and no results kept are under it. The same holds of the
arguments of a call after they are prepared.
-/
namespace SqlResolution

open Evaluator Steps

namespace Evaluator

variable {mark : Traits → Bool} {P : Variable → Prop} {e : Evaluator} {es : List Evaluator}

/-- An evaluator with a mark is plain. -/
def PlainWhere (mark : Traits → Bool) (P : Variable → Prop) (e : Evaluator) : Prop :=
  mark e.traits = true → e.Plain P

namespace PlainWhere

theorem of_plain (h : e.Plain P) : e.PlainWhere mark P := fun _ => h

theorem of_varying (hmark : Marks mark) (h : e.traits.isConstantOrRuntimeConstant = false) :
    e.PlainWhere mark P := by
  intro hm
  rw [hmark.eq_false h] at hm
  cases hm

theorem link (hlinks : mark linkTraits = true → ∀ x, P x)
    (type : ColumnType) (x : Variable) : (Evaluator.link type x).PlainWhere mark P := by
  intro hm
  refine plain_link_iff.mpr (hlinks ?_ x)
  cases x with
  | slot => exact hm
  | named => exact hm

theorem adapt (hmark : Marks mark) (h : e.PlainWhere mark P) (adapter : Adapter)
    (source target : ColumnType) : (Evaluator.adapt adapter source target e).PlainWhere mark P := by
  intro hm
  simp only [traits] at hm
  simpa only [Plain] using h (hmark.of_same hm rfl rfl)

theorem scalar (hmark : Marks mark) (k : Kernel) (h : ∀ e ∈ es, e.PlainWhere mark P) :
    (Evaluator.scalar k es).PlainWhere mark P := by
  intro hm
  simp only [traits] at hm
  simp only [Plain, plainAll_iff]
  exact fun e he => h e he (hmark.of_inherited hm e he)

theorem cast (hmark : Marks mark) (h : e.PlainWhere mark P) (scales : TextScales)
    (target : ColumnType) : (Evaluator.cast scales target e).PlainWhere mark P := by
  intro hm
  simp only [traits] at hm
  simpa only [Plain] using h (hmark.of_same hm rfl rfl)

theorem member (hmark : Marks mark) (h : e.PlainWhere mark P) (texts : List String)
    (holdsNull : Bool) : (Evaluator.member texts holdsNull e).PlainWhere mark P := by
  intro hm
  simp only [traits] at hm
  simpa only [Plain] using h (hmark.of_same hm rfl rfl)

theorem concat (hmark : Marks mark) (h : ∀ e ∈ es, e.PlainWhere mark P) (scales : TextScales) :
    (Evaluator.concat scales es).PlainWhere mark P := by
  intro hm
  simp only [traits] at hm
  simp only [Plain, plainAll_iff]
  exact fun e he => h e he (hmark.of_inherited hm e he)

theorem fold (hmark : Marks mark) (h : e.PlainWhere mark P) (hconstant : e.isConstant = true)
    (b : BindTable) : (e.fold b).PlainWhere mark P :=
  .of_plain ((h (hmark.of_constant hconstant)).fold b)

/-- What has no mark may keep its results, and still has none. -/
theorem finish (hmark : Marks mark) (h : e.PlainWhere mark P) (settings : Settings)
    (b : BindTable) : (e.finish settings b).PlainWhere mark P := by
  cases hm : mark e.traits with
  | true => exact .of_plain ((h hm).finish settings b)
  | false =>
    have hvariable : e.isConstant ≠ true := by
      intro hconstant
      rw [hmark.of_constant hconstant] at hm
      cases hm
    have hfinish := finishes_finish settings b e
    generalize e.finish settings b = r at hfinish ⊢
    cases hfinish with
    | folded hfolds => exact absurd (isConstant_of_folds hfolds) hvariable
    | evaluated hfolds => exact absurd (isConstant_of_folds hfolds) hvariable
    | memoized =>
      intro hm'
      have hsame : mark (Evaluator.memo none e).traits = mark e.traits := hmark.congr rfl rfl
      rw [hsame, hm] at hm'
      cases hm'
    | unfoldable | unchanged => exact h

/-- A link that is given a type keeps its traits. -/
theorem assignType {b b' : BindTable} {type : ColumnType} {e' : Evaluator}
    (h : e.PlainWhere mark P) (hassign : e.assignType b type = .ok (e', b')) :
    e'.PlainWhere mark P := by
  intro hm
  rw [traits_assignType hassign] at hm
  obtain ⟨given, x, hx, rfl⟩ | hrefuses := (h hm).link_or_cannotAssign
  · rw [assignType_link] at hassign
    cases hassign
    exact plain_link_iff.mpr hx
  · rw [hrefuses] at hassign
    cases hassign

end PlainWhere

theorem maintained_plainWhere (hmark : Marks mark) :
    Maintained (fun _ => True) (PlainWhere mark P) where
  literal hliteral := .of_plain hliteral.plain
  evalConstant := by
    intro c e _ h hconstant
    rw [evalConstant, (h (hmark.of_constant hconstant)).snd_eval]
    exact h
  assignType _ h _ hassign := ⟨h.assignType hassign, trivial⟩
  adapt h _ := h.adapt hmark _ _ _

theorem FixesConstants.finish (h : e.FixesConstants) (settings : Settings) (b : BindTable) :
    (e.finish settings b).FixesConstants :=
  PlainWhere.finish marks_constant h settings b

end Evaluator

theorem maintained_fixesConstants : Maintained (fun _ => True) FixesConstants :=
  maintained_plainWhere marks_constant

namespace Builtin

/-- What an operand becomes that is converted to a type: itself, a constant that is read off its text,
or an adapter around it. -/
inductive Converted (type : ColumnType) (e : Evaluator) : Evaluator → Prop
  | kept : Converted type e e
  | read (v : Value) : Converted type e (.constant type v)
  | adapted (adapter : Adapter) : Converted type e (.adapt adapter e.type type e)

/-- A converted operand is folded where it is constant. -/
theorem convertOperand_ok {b : BindTable} {type : ColumnType} {e e' : Evaluator} {position : Span}
    (hconvert : convertOperand b type e position = .ok e') :
    ∃ converted, Converted type e converted ∧
      (e' = converted ∨ converted.isConstant = true ∧ e' = converted.fold b) := by
  unfold convertOperand at hconvert
  split at hconvert
  · cases hconvert
    exact ⟨e, .kept, .inl rfl⟩
  · obtain ⟨folded, hfolded, rfl⟩ := exists_of_map_ok hconvert
    obtain ⟨outcome, houtcome, rfl⟩ := exists_of_map_ok hfolded
    have hconverted : Converted type e outcome.evaluator := by
      unfold implicitCast at houtcome
      split at houtcome
      · cases houtcome
        exact .kept
      · split at houtcome
        · obtain ⟨read, hread, rfl⟩ := exists_of_map_ok houtcome
          unfold readConstantGeohash at hread
          split at hread
          · cases hread
            exact .read .null
          · split at hread
            · cases hread
              exact .read _
            · cases hread
        · cases houtcome
          exact .adapted _
    refine ⟨outcome.evaluator, hconverted, ?_⟩
    split
    · rename_i hfolds
      exact .inr ⟨(Bool.and_eq_true_iff.mp hfolds).2, rfl⟩
    · exact .inl rfl

/-- What holds of each operand after it is converted. -/
theorem forall_convertOperands {P : Evaluator → Prop} {b : BindTable} {type : ColumnType}
    {entries : List (Evaluator × Span)} {es : List Evaluator}
    (h : ∀ entry ∈ entries, ∀ e, convertOperand b type entry.1 entry.2 = .ok e → P e)
    (hconvert : convertOperands b type entries = .ok es) : ∀ e ∈ es, P e := by
  induction entries generalizing es with
  | nil =>
    cases hconvert
    intro e he
    cases he
  | cons entry entries ih =>
    obtain ⟨hhead, htail⟩ := List.forall_mem_cons.mp h
    obtain ⟨e, position⟩ := entry
    rw [convertOperands] at hconvert
    rcases hfirst : convertOperand b type e position with error | e'
    · rw [hfirst] at hconvert
      cases hconvert
    · rw [hfirst] at hconvert
      rcases hrest : convertOperands b type entries with error | es'
      · rw [hrest] at hconvert
        cases hconvert
      · rw [hrest] at hconvert
        cases hconvert
        exact List.forall_mem_cons.mpr ⟨hhead e' hfirst, ih htail hrest⟩

section

variable {mark : Traits → Bool} {P : Variable → Prop}

theorem plainWhere_convertOperand (hmark : Marks mark) {b : BindTable} {type : ColumnType}
    {e e' : Evaluator} {position : Span} (h : e.PlainWhere mark P)
    (hconvert : convertOperand b type e position = .ok e') : e'.PlainWhere mark P := by
  obtain ⟨converted, hconverted, hfinished⟩ := convertOperand_ok hconvert
  have hplain : converted.PlainWhere mark P := by
    cases hconverted with
    | kept => exact h
    | read v => exact .of_plain (by simp [Plain])
    | adapted adapter => exact h.adapt hmark _ _ _
  obtain rfl | ⟨hconstant, rfl⟩ := hfinished
  · exact hplain
  · exact hplain.fold hmark hconstant b

/-- What a builtin builds with a mark is plain where the arguments with the mark are. -/
theorem plainWhere_build (hmark : Marks mark) {b : Builtin} {position : Span} {args : Args}
    {settings : Settings} {c : Context} {e : Evaluator}
    (h : ∀ arg ∈ args.evaluators, arg.PlainWhere mark P)
    (hbuild : b.build position args settings c = .ok e) : e.PlainWhere mark P := by
  cases makes_of_build hbuild with
  | kernel k => exact .scalar hmark k h
  | converted k operands =>
    refine .scalar hmark k (forall_convertOperands (fun entry hentry e he => ?_) operands)
    exact plainWhere_convertOperand hmark (h _ (List.of_mem_zip hentry).1) he
  | varcharLength => exact .scalar hmark .length h
  | nullCast => exact .of_plain (by simp [nullOf, Plain])
  | @cast source target arg _ two =>
    exact (h arg (by simp [two])).cast hmark _ _
  | concat => exact .concat hmark h settings.scales
  | @member texts holdsNull arg _ some =>
    exact (h arg (by simp [some])).member hmark _ _
  | now => exact .of_plain (by simp [Plain])
  | randomInt | randomDouble | count | total | rowNumber | rank | runningAverage =>
    exact .of_varying hmark rfl

end

/-- Constants that a builtin builds are plain where those among its arguments are. -/
theorem fixesConstants_build {b : Builtin} {position : Span} {args : Args} {settings : Settings}
    {c : Context} {e : Evaluator} (h : ∀ arg ∈ args.evaluators, arg.FixesConstants)
    (hbuild : b.build position args settings c = .ok e) : e.FixesConstants :=
  plainWhere_build marks_constant h hbuild

end Builtin

section

variable {mark : Traits → Bool} {P : Variable → Prop}

theorem Resolver.maintains_plainWhere (hmark : Marks mark)
    (hlinks : mark linkTraits = true → ∀ x, P x)
    (settings : Settings) (compilers : List Compiler) :
    (Resolver.mk Builtin.catalog settings compilers).Maintains (fun _ => True) (fun _ => True)
      fun _ => PlainWhere mark P where
  arguments _ := maintained_plainWhere hmark
  pushTimestampRequired _ hI := hI
  popTimestampRequired hI := hI
  column _ := .of_varying hmark rfl
  link := by
    intro schema n c e _ _ _ _ he
    obtain ⟨x, -, rfl⟩ := Link.ofNode_ok he
    exact .link hlinks _ x
  cursor _ _ := .of_varying hmark rfl
  overloads := by
    intro schema name overloads hname o ho span args c e _ hargs hbuild
    obtain ⟨builtin, -, rfl, -⟩ := Builtin.exists_of_mem_overloads hname ho
    exact (Builtin.plainWhere_build hmark hargs (Builtin.build_of_factory hbuild)).finish hmark
      settings c.table

/-- What trees over the builtins resolve to with a mark is plain. -/
theorem Builtin.plainWhere_of_resolve (hmark : Marks mark)
    (hlinks : mark linkTraits = true → ∀ x, P x)
    {settings : Settings} {compilers : List Compiler} {root : Node} {schema : Schema}
    {w after : Walk} {e : Evaluator}
    (hresolve : (Resolver.mk catalog settings compilers).resolve root schema w = (.ok e, after)) :
    e.PlainWhere mark P := by
  have hroot : ∀ m ∈ root.postorder, True := fun _ _ => trivial
  have hrun := (Resolver.maintains_plainWhere hmark hlinks settings compilers).resolve hroot
    (fun _ _ _ => Plan.asks_true _) schema (w := w) trivial
  rw [hresolve] at hrun
  exact hrun.2 e rfl

end

/-- The constants that trees over the builtins resolve to are plain. -/
theorem Builtin.fixesConstants_of_resolve (settings : Settings) (compilers : List Compiler)
    (root : Node) (schema : Schema) (w : Walk) {e : Evaluator} {after : Walk}
    (hresolve : (Resolver.mk catalog settings compilers).resolve root schema w = (.ok e, after)) :
    e.FixesConstants :=
  plainWhere_of_resolve marks_constant nofun hresolve

end SqlResolution
