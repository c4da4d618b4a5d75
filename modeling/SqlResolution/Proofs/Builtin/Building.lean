import SqlResolution.Builtin.Build
import SqlResolution.Proofs.Steps

/-!
# What builtins build

A builtin that can be built makes one evaluator of the arguments of its call. This is all that is
known of a builtin's evaluator, and what holds of it is shown case by case.
-/
namespace SqlResolution.Builtin

open Steps

/-- The evaluator that a builtin makes of arguments. -/
inductive Makes (settings : Settings) (c : Context) (args : Args) : Builtin → Evaluator → Prop
  | kernel (k : Kernel) : Makes settings c args (kernel k) (.scalar k args.evaluators)
  | converted (k : Kernel) {type : ColumnType} {es : List Evaluator}
      (operands : convertOperands c.table type (args.evaluators.zip args.positions) = .ok es) :
      Makes settings c args (kernel k) (.scalar k es)
  | varcharLength : Makes settings c args varcharLength (.scalar .length args.evaluators)
  | nullCast (source target : ColumnType) {arg second : Evaluator}
      (two : args.evaluators = [arg, second]) :
      Makes settings c args (cast source target) (.nullOf target)
  | cast (source target : ColumnType) {arg second : Evaluator}
      (two : args.evaluators = [arg, second]) :
      Makes settings c args (cast source target) (.cast settings.scales target arg)
  | concat : Makes settings c args concat (.concat settings.scales args.evaluators)
  | member (texts : List String) (holdsNull : Bool) {arg : Evaluator} {elements : List Evaluator}
      (some : args.evaluators = arg :: elements) :
      Makes settings c args member (.member texts holdsNull arg)
  | randomInt (state : UInt64) : Makes settings c args randomInt (.randomInt state)
  | randomDouble (state : UInt64) : Makes settings c args randomDouble (.randomDouble state)
  | now : Makes settings c args now (.now c.now)
  | count : Makes settings c args count (.count 0)
  | total (which : Total) {arg : Evaluator} (one : args.evaluators = [arg]) :
      Makes settings c args (total which) (.total which .zero arg)
  | rowNumber : Makes settings c args rowNumber (.rowNumber 0)
  | rank : Makes settings c args rank .rank
  | runningAverage {arg : Evaluator} (one : args.evaluators = [arg]) :
      Makes settings c args runningAverage (.runningAverage 0 0 arg)

variable {b : Builtin} {span : Span} {args : Args} {settings : Settings} {c : Context}
  {e : Evaluator}

theorem buildUnary_ok {make : Evaluator → Evaluator} (h : buildUnary make span args = .ok e) :
    ∃ arg, args.evaluators = [arg] ∧ e = make arg := by
  unfold buildUnary at h
  split at h
  · rename_i arg hevaluators
    cases h
    exact ⟨arg, hevaluators, rfl⟩
  · cases h

/-- What is built is what the builtin makes. -/
theorem makes_of_build (h : b.build span args settings c = .ok e) : b.Makes settings c args e := by
  cases b with
  | kernel k =>
    simp only [build, buildKernel] at h
    split at h
    · obtain ⟨es, hoperands, rfl⟩ := exists_of_map_ok h
      exact .converted k hoperands
    · cases h
      exact .kernel k
  | varcharLength =>
    cases h
    exact .varcharLength
  | cast source target =>
    simp only [build, buildCast] at h
    split at h
    · rename_i hevaluators
      split at h
      · cases h
        exact .nullCast source target hevaluators
      · cases h
        exact .cast source target hevaluators
    · cases h
  | concat =>
    cases h
    exact .concat
  | member =>
    simp only [build, buildMember] at h
    split at h
    · cases h
    · rename_i hevaluators
      obtain ⟨⟨texts, holdsNull⟩, -, rfl⟩ := exists_of_map_ok h
      exact .member texts holdsNull hevaluators
  | randomInt =>
    cases h
    exact .randomInt _
  | randomDouble =>
    cases h
    exact .randomDouble _
  | now =>
    cases h
    exact .now
  | count =>
    cases h
    exact .count
  | total which =>
    obtain ⟨arg, hevaluators, rfl⟩ := buildUnary_ok h
    exact .total which hevaluators
  | rowNumber =>
    cases h
    exact .rowNumber
  | rank =>
    cases h
    exact .rank
  | runningAverage =>
    obtain ⟨arg, hevaluators, rfl⟩ := buildUnary_ok h
    exact .runningAverage hevaluators

/-- What the factory of a builtin builds. -/
theorem build_of_factory {position : Span}
    (h : b.factory.build position args settings c = .ok (some e)) :
    b.build position args settings c = .ok e := by
  obtain ⟨built, hbuild, hsome⟩ := exists_of_map_ok h
  rw [hbuild, Option.some.inj hsome]

end SqlResolution.Builtin
