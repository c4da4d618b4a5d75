import SqlResolution.Proofs.Builtin.Casting
import SqlResolution.Proofs.Evaluator.Exposure

/-!
# A builtin with another argument

What becomes of a call when another evaluator takes the place of an argument and the same builtin is
given the call: a kernel computes on the other values, and a sum or a running average is fed them.
-/
namespace SqlResolution

open Evaluator Steps

namespace Evaluator

variable {es : List Evaluator} {i : Nat} {e r : Evaluator}

/-- A function is non-deterministic where one of its arguments is. -/
theorem isNonDeterministic_scalar (k : Kernel) (es : List Evaluator) :
    (scalar k es).isNonDeterministic = es.any isNonDeterministic := by
  rw [isNonDeterministic, traits, Traits.nonDeterministic_inherited, traitsOf_eq_map, List.any_map]
  rfl

theorem isNonDeterministic_scalar_set {k : Kernel} (he : es[i]? = some e)
    (hr : r.isNonDeterministic = true → e.isNonDeterministic = true)
    (h : (scalar k (es.set i r)).isNonDeterministic = true) :
    (scalar k es).isNonDeterministic = true := by
  rw [isNonDeterministic_scalar, List.any_eq_true] at h ⊢
  obtain ⟨a, ha, hrandom⟩ := h
  obtain ha | rfl := List.mem_or_eq_of_mem_set ha
  · exact ⟨a, ha, hrandom⟩
  · exact ⟨e, List.mem_of_getElem? he, hr hrandom⟩

end Evaluator

namespace Builtin

variable {settings : Settings} {name : String} {span : Span} {args : Args} {c after : Context}
  {b : Builtin} {adjusted : Args} {e : Evaluator}

/-- The arguments of a call after they are prepared have plain constants. -/
theorem Call.fixesConstants (h : Call settings name span args c b adjusted e after)
    (hfixes : ∀ arg ∈ args.evaluators, arg.FixesConstants) :
    ∀ arg ∈ adjusted.evaluators, arg.FixesConstants :=
  (maintained_fixesConstants.adjust (pairwise_undefinedPlaces args)
    (fun _ hi _ he => isUndefined_of_evolve (.refl args) hi he) hfixes trivial
    (h.adjusts hfixes)).2

/-- An evaluator that may take the place of an argument of a call: neither is brought into another
form, and the evaluator is no less constant and deterministic than it looks. -/
structure Replaces (binds : BindTable) (target : TypeTag) (arg r : Evaluator) : Prop where
  defined : arg.isUndefined = false
  keepsArgument : ∀ position, rewriteArgument binds target arg position = .ok arg
  keeps : ∀ position, rewriteArgument binds target r position = .ok r
  fixesConstants : r.FixesConstants
  isNonDeterministic : r.isNonDeterministic = true → arg.isNonDeterministic = true

variable {i : Nat} {arg r : Evaluator} {p : Parameter}

/-- An argument of a type that is not rewritten may be replaced by its cast to the parameter's
type. -/
theorem replaces_castOrNull (scales : TextScales) (binds : BindTable) (target : ColumnType)
    (hdefined : arg.isUndefined = false) (hrewritten : arg.type.tag.isRewritten = false)
    (hfixes : arg.FixesConstants) (settings : Settings) (b' : BindTable) :
    Replaces binds target.tag arg ((castOrNull scales target arg).finish settings b') where
  defined := hdefined
  keepsArgument position := rewriteArgument_of_not_isRewritten hrewritten binds _ position
  keeps position := by
    have htype : ((castOrNull scales target arg).finish settings b').type = target := by
      rw [type_finish, type_castOrNull]
    have hself := rewriteArgument_self
      ((fixesConstants_castOrNull hfixes scales target).finish settings b') binds position
    rwa [htype] at hself
  fixesConstants := (fixesConstants_castOrNull hfixes scales target).finish settings b'
  isNonDeterministic h := by
    rw [← isNonDeterministic_castOrNull scales target arg]
    exact isNonDeterministic_finish h

/-- The finished cast has the operand's values, cast. -/
theorem maps_finish_castOrNull (binds : BindTable) (scales : TextScales) (target : ColumnType)
    (hfixes : arg.FixesConstants) (settings : Settings) (b' : BindTable) :
    Maps binds (Value.cast scales target.tag) arg
      ((castOrNull scales target arg).finish settings b') := by
  intro rows
  have hsame : SameValues binds rows ((castOrNull scales target arg).finish settings b')
      (castOrNull scales target arg) :=
    (fixesConstants_castOrNull hfixes scales target).sameValues_finish
      (memoize_castOrNull scales target arg) settings b'
  rw [hsame.evalRows, maps_castOrNull]

namespace Call

/-- What is built with another argument may be used where what was built is. -/
theorem allowed_of_built {built built' : Evaluator}
    (hallowed : (!after.allowNonDeterministic && built.isNonDeterministic) = false)
    (h : built'.isNonDeterministic = true → built.isNonDeterministic = true) :
    (!after.allowNonDeterministic && built'.isNonDeterministic) = false := by
  cases hrandom : built'.isNonDeterministic with
  | false => exact Bool.and_false _
  | true => rwa [h hrandom] at hallowed

/-- With a stand-in for an argument the call has the same values where what is built of it has. -/
theorem replace (h : Call settings name span args c b adjusted e after)
    (hfixes : ∀ arg ∈ args.evaluators, arg.FixesConstants) (harg : args.get? i = some arg)
    (hp : b.descriptor.parameters[i]? = some p) (hr : Replaces after.table p.tag arg r) :
    adjusted.get? i = some arg ∧ ∃ built, b.build span adjusted settings after = .ok built ∧
      ∀ built', b.build span (adjusted.set i r) settings after = .ok built' →
        built.traits.memoize = false → built'.traits.memoize = false →
        (built'.isNonDeterministic = true → built.isNonDeterministic = true) →
          ∃ e', b.overload.take settings name span (undefinedPlaces args) (args.set i r) c =
              (.ok e', after) ∧
            ∀ binds rows, SameValues binds rows e e' ↔ SameValues binds rows built built' := by
  obtain ⟨hkept, htake⟩ := h.take_set hfixes harg hp hr.defined fun position =>
    ⟨hr.keepsArgument position, hr.keeps position⟩
  obtain ⟨built, hbuilt, hallowed, rfl⟩ := h.exists_built
  refine ⟨hkept, built, hbuilt, fun built' hbuilt' hmemoize hmemoize' hrandom => ?_⟩
  have hadjusted := h.fixesConstants hfixes
  have hreplaced : ∀ arg ∈ (adjusted.set i r).evaluators, arg.FixesConstants := by
    intro a ha
    obtain ha | rfl := List.mem_or_eq_of_mem_set ha
    · exact hadjusted a ha
    · exact hr.fixesConstants
  refine ⟨_, htake built' hbuilt' (allowed_of_built hallowed hrandom), fun binds rows => ?_⟩
  have hold : SameValues binds rows (built.finish settings after.table) built :=
    (fixesConstants_build hadjusted hbuilt).sameValues_finish hmemoize settings after.table
  have hnew : SameValues binds rows (built'.finish settings after.table) built' :=
    (fixesConstants_build hreplaced hbuilt').sameValues_finish hmemoize' settings after.table
  exact ⟨fun h => (hold.symm.trans h).trans hnew, fun h => (hold.trans h).trans hnew.symm⟩

/-- A kernel has the same values with the stand-in exactly where it does alike with the mapped
values of the argument. -/
theorem sameValues_kernel {k : Kernel}
    (h : Call settings name span args c b adjusted e after)
    (hbuild : ∀ args, b.build span args settings after = .ok (.scalar k args.evaluators))
    (hfixes : ∀ arg ∈ args.evaluators, arg.FixesConstants) (harg : args.get? i = some arg)
    (hp : b.descriptor.parameters[i]? = some p) (hr : Replaces after.table p.tag arg r) :
    adjusted.get? i = some arg ∧ ∃ e',
      b.overload.take settings name span (undefinedPlaces args) (args.set i r) c =
          (.ok e', after) ∧
        ∀ binds rows f, Maps binds f arg r → (SameValues binds rows e e' ↔
          ∀ vs ∈ evalRowsAll binds rows adjusted.evaluators,
            k.apply (vs.modify i f) = k.apply vs) := by
  obtain ⟨hkept, built, hbuilt, hreplace⟩ := h.replace hfixes harg hp hr
  rw [hbuild] at hbuilt
  cases hbuilt
  have hmemoize : ∀ es : List Evaluator, (Evaluator.scalar k es).traits.memoize = false := by
    intro es
    simp only [traits, Traits.inherited]
    split <;> rfl
  obtain ⟨e', htake, hsame⟩ := hreplace _ (hbuild _) (hmemoize _) (hmemoize _)
    (isNonDeterministic_scalar_set hkept hr.isNonDeterministic)
  refine ⟨hkept, e', htake, fun binds rows f hmaps => ?_⟩
  exact (hsame binds rows).trans (sameValues_scalar_set hkept hmaps)

/-- Builtins of one argument. -/
theorem replace_unary (make : Evaluator → Evaluator)
    (h : Call settings name span args c b adjusted e after)
    (hbuild : ∀ args, b.build span args settings after = buildUnary make span args)
    (hmemoize : ∀ arg, (make arg).traits.memoize = false)
    (hrandom : (make r).isNonDeterministic = true → (make arg).isNonDeterministic = true)
    (hfixes : ∀ arg ∈ args.evaluators, arg.FixesConstants) (harg : args.get? i = some arg)
    (hp : b.descriptor.parameters[i]? = some p) (hr : Replaces after.table p.tag arg r) :
    ∃ e', b.overload.take settings name span (undefinedPlaces args) (args.set i r) c =
        (.ok e', after) ∧
      ∀ binds rows, SameValues binds rows e e' ↔
        SameValues binds rows (make arg) (make r) := by
  obtain ⟨hkept, built, hbuilt, hreplace⟩ := h.replace hfixes harg hp hr
  rw [hbuild] at hbuilt
  obtain ⟨evaluators, positions⟩ := adjusted
  match evaluators, i with
  | [a], 0 =>
    cases hkept
    cases hbuilt
    exact hreplace (make r) (hbuild _) (hmemoize _) (hmemoize _) hrandom
  | [_], _ + 1 => cases hkept
  | [], _ => cases hkept
  | _ :: _ :: _, _ => cases hbuilt

/-- A total has the same values with the stand-in where it adds the mapped values alike. -/
theorem sameValues_total {which : Total}
    (h : Call settings name span args c (total which) adjusted e after)
    (hfixes : ∀ arg ∈ args.evaluators, arg.FixesConstants) (harg : args.get? i = some arg)
    (hp : (total which).descriptor.parameters[i]? = some p)
    (hr : Replaces after.table p.tag arg r) :
    ∃ e', (total which).overload.take settings name span (undefinedPlaces args) (args.set i r) c =
        (.ok e', after) ∧
      ∀ binds rows f, Maps binds f arg r →
        (∀ v ∈ (arg.evalRows binds rows).1, ∀ s, Sums.add which (f v) s = Sums.add which v s) →
          SameValues binds rows e e' := by
  obtain ⟨e', htake, hsame⟩ := h.replace_unary (.total which .zero) (fun _ => rfl)
    (fun _ => rfl) hr.isNonDeterministic hfixes harg hp hr
  refine ⟨e', htake, fun binds rows f hmaps hadd => (hsame binds rows).mpr ⟨?_, fun first => ?_⟩⟩
  · rw [fst_evalRows_total, fst_evalRows_total]
  · exact (fedValues?_total which .zero hmaps hadd).symm

/-- A running average has the same values with the stand-in where it counts the mapped values
alike. -/
theorem sameValues_runningAverage
    (h : Call settings name span args c runningAverage adjusted e after)
    (hfixes : ∀ arg ∈ args.evaluators, arg.FixesConstants) (harg : args.get? i = some arg)
    (hp : runningAverage.descriptor.parameters[i]? = some p)
    (hr : Replaces after.table p.tag arg r) :
    ∃ e', runningAverage.overload.take settings name span (undefinedPlaces args) (args.set i r) c =
        (.ok e', after) ∧
      ∀ binds rows f, Maps binds f arg r →
        (∀ v ∈ (arg.evalRows binds rows).1,
          ((f v).asDouble?.filter fun x => !x.isNaN) = v.asDouble?.filter fun x => !x.isNaN) →
            SameValues binds rows e e' := by
  obtain ⟨e', htake, hsame⟩ := h.replace_unary (.runningAverage 0 0) (fun _ => rfl)
    (fun _ => rfl) (fun h => by cases h) hfixes harg hp hr
  refine ⟨e', htake, fun binds rows f hmaps hreads => (hsame binds rows).mpr ⟨?_, fun first => ?_⟩⟩
  · rw [fst_evalRows_runningAverage, fst_evalRows_runningAverage]
  · exact (fedValues?_runningAverage 0 0 hmaps hreads).symm

/-- A cast has the same values with a stand-in for its operand exactly where it casts the mapped
values alike. -/
theorem sameValues_cast {source target : ColumnType}
    (h : Call settings name span args c (cast source target) adjusted e after)
    (hnull : arg.type.isNull = false) (hnull' : r.type.isNull = false)
    (hfixes : ∀ arg ∈ args.evaluators, arg.FixesConstants) (harg : args.get? 0 = some arg)
    (hp : (cast source target).descriptor.parameters[0]? = some p)
    (hr : Replaces after.table p.tag arg r) :
    adjusted.get? 0 = some arg ∧ ∃ e',
      (cast source target).overload.take settings name span (undefinedPlaces args)
          (args.set 0 r) c = (.ok e', after) ∧
        ∀ binds rows f, Maps binds f arg r → (SameValues binds rows e e' ↔
          ∀ v ∈ (arg.evalRows binds rows).1,
            (f v).cast settings.scales target.tag = v.cast settings.scales target.tag) := by
  obtain ⟨hkept, built, hbuilt, hreplace⟩ := h.replace hfixes harg hp hr
  obtain ⟨evaluators, positions⟩ := adjusted
  obtain ⟨a, type, rfl⟩ := exists_pair_of_build_cast hbuilt
  refine ⟨hkept, ?_⟩
  cases hkept
  rw [build_cast source target type positions hnull] at hbuilt
  cases hbuilt
  obtain ⟨e', htake, hsame⟩ := hreplace (castOrNull settings.scales target r)
    (build_cast source target type positions hnull' _ _ _) (memoize_castOrNull _ _ _)
    (memoize_castOrNull _ _ _) (by simpa only [isNonDeterministic_castOrNull] using
      hr.isNonDeterministic)
  refine ⟨e', htake, fun binds rows f hmaps => (hsame binds rows).trans ?_⟩
  rw [sameValues_iff_of_not_accumulates (accumulates_castOrNull _ _ _)
    (accumulates_castOrNull _ _ _), maps_castOrNull, maps_castOrNull, hmaps rows, List.map_map,
    List.map_inj_left]
  exact forall₂_congr fun v _ => eq_comm

/-- A cast has the same values whatever stands for its type. -/
theorem sameValues_castType {source target : ColumnType}
    (h : Call settings name span args c (cast source target) adjusted e after)
    (hfixes : ∀ arg ∈ args.evaluators, arg.FixesConstants) (harg : args.get? 1 = some arg)
    (hp : (cast source target).descriptor.parameters[1]? = some p)
    (hr : Replaces after.table p.tag arg r) :
    ∃ e', (cast source target).overload.take settings name span (undefinedPlaces args)
        (args.set 1 r) c = (.ok e', after) ∧
      ∀ binds rows, SameValues binds rows e e' := by
  obtain ⟨hkept, built, hbuilt, hreplace⟩ := h.replace hfixes harg hp hr
  have hmemoize : built.traits.memoize = false := by
    cases makes_of_build hbuilt <;> rfl
  obtain ⟨evaluators, positions⟩ := adjusted
  obtain ⟨operand, type, rfl⟩ := exists_pair_of_build_cast hbuilt
  obtain ⟨e', htake, hsame⟩ := hreplace built hbuilt hmemoize hmemoize id
  exact ⟨e', htake, fun binds rows => (hsame binds rows).mpr (.refl built)⟩

/-- A list holds the mapped values exactly where it holds the values. -/
theorem sameValues_member
    (h : Call settings name span args c member adjusted e after)
    (hfixes : ∀ arg ∈ args.evaluators, arg.FixesConstants) (harg : args.get? 0 = some arg)
    (hp : member.descriptor.parameters[0]? = some p) (hr : Replaces after.table p.tag arg r) :
    ∃ e', member.overload.take settings name span (undefinedPlaces args) (args.set 0 r) c =
        (.ok e', after) ∧
      ∀ binds rows f, Maps binds f arg r →
        (∀ v ∈ (arg.evalRows binds rows).1, ∀ texts holdsNull,
          membership texts holdsNull (f v) = membership texts holdsNull v) →
            SameValues binds rows e e' := by
  obtain ⟨hkept, built, hbuilt, hreplace⟩ := h.replace hfixes harg hp hr
  obtain ⟨evaluators, positions⟩ := adjusted
  match evaluators with
  | [] => cases hkept
  | a :: elements =>
    cases hkept
    obtain ⟨⟨texts, holdsNull⟩, htexts, rfl⟩ := exists_of_map_ok hbuilt
    have hbuilt' : member.build span (Args.set ⟨arg :: elements, positions⟩ 0 r) settings after =
        .ok (.member texts holdsNull r) := by
      change (listTexts after.table span elements).map _ = _
      rw [htexts]
      rfl
    obtain ⟨e', htake, hsame⟩ := hreplace _ hbuilt' rfl rfl hr.isNonDeterministic
    refine ⟨e', htake, fun binds rows f hmaps hmember => (hsame binds rows).mpr ?_⟩
    rw [sameValues_iff_of_not_accumulates rfl rfl, maps_member, maps_member, hmaps rows,
      List.map_map, List.map_inj_left]
    exact fun v hv => congrArg Value.boolean (hmember v hv texts holdsNull).symm

end Call
end Builtin
end SqlResolution
