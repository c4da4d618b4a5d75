import SqlResolution.Proofs.Builtin.Replacement
import SqlResolution.Proofs.Value.Coercion

/-!
# Coerced numbers

A builtin that is given a number or an instant of another type than its parameter's does with it
what it does with the argument cast to the parameter's type. A DATE for a TIMESTAMP is the
exception, and so is a comparison of doubles that is given two whole numbers.
-/
namespace SqlResolution

open Evaluator

/-- A parameter takes a number, an instant or a text of another type where that may be passed as its
own. -/
theorem Parameter.distance_of_admits {p : Parameter} {charFitsString isCastTarget : Bool}
    {e : Evaluator} (h : p.admits charFitsString isCastTarget e = true)
    (htype : (e.type.tag.isQuantity || e.type.tag.isString) = true) (hne : e.type.tag ≠ p.tag) :
    e.type.tag.distance p.tag ≠ noCoercion := by
  have hplain : (e.type.tag == .array) = false ∧ (e.type.tag == .arrayString) = false ∧
      (e.type.tag == .char) = false ∧ e.type.tag.isGeohash = false ∧
        (e.type.tag == .undefined) = false := by
    generalize e.type.tag = tag at htype
    cases tag <;> first | decide | cases htype
  obtain ⟨harray, hstrings, hchar, hgeohash, hundefined⟩ := hplain
  have hinexact : p.matchesExactly charFitsString e = false := by
    simp only [matchesExactly, takesCharAsString, hchar, ColumnType.isGeohash, hgeohash,
      beq_eq_false_iff_ne.mpr hne.symm, Bool.false_and, Bool.and_false, Bool.or_self]
  simp only [admits, ColumnType.isArray, harray, hstrings, hchar, hinexact, Evaluator.isUndefined,
    ColumnType.isUndefined, hundefined, Bool.false_and, Bool.or_false, Bool.false_eq_true,
    if_false] at h
  split at h
  · cases h
  · split at h
    · cases h
    · split at h
      · cases h
      · simpa using h

namespace Builtin

/-- There is a cast from each number or instant to each that it may be passed as. -/
theorem cast_mem_of_distance {source target : TypeTag} (hsource : source.isQuantity = true)
    (htarget : target.isQuantity = true) (hdistance : source.distance target ≠ noCoercion) :
    cast (.of source) (.of target) ∈ all := by
  have hall : ∀ s ∈ TypeTag.all.filter TypeTag.isQuantity,
      ∀ t ∈ TypeTag.all.filter TypeTag.isQuantity, s.distance t ≠ noCoercion →
        ColumnType.of s ∈ castTypes ∧ ColumnType.of t ∈ castTypes ∧ converts s t = true := by decide
  exact cast_mem_all_iff.mpr (hall source (List.mem_filter.mpr ⟨source.mem_all, hsource⟩) target
    (List.mem_filter.mpr ⟨target.mem_all, htarget⟩) hdistance)

/-- The builtins other than casts that ask for numbers of a kind. -/
inductive AsksFor (kind : NumberKind) : Builtin → Prop
  | kernel {k : Kernel} (asks : k.numberKind? = some kind) : AsksFor kind (kernel k)
  | total {which : Total} (asks : kind.type = if which == .longSum then .long else .double) :
      AsksFor kind (total which)
  | runningAverage (asks : kind = .double) : AsksFor kind runningAverage

/-- A builtin other than a cast asks for TIMESTAMPs or for numbers of a kind where it asks for
quantities. -/
theorem asksFor_of_isQuantity {b : Builtin} {p : Parameter} (hcast : b.isCast = false)
    (hp : p ∈ b.descriptor.parameters) (hquantity : p.tag.isQuantity = true) :
    p.type = .timestamp ∨ ∃ kind : NumberKind, b.AsksFor kind ∧ p.type = kind.type := by
  cases b with
  | kernel k =>
    simp only [descriptor, List.mem_map] at hp
    obtain ⟨type, htype, rfl⟩ := hp
    cases k with
    | arithmetic op kind =>
      simp only [Kernel.operands, List.mem_cons, List.not_mem_nil, or_false, or_self] at htype
      exact .inr ⟨kind, .kernel rfl, htype⟩
    | negate kind | magnitude kind =>
      obtain rfl := List.mem_singleton.mp htype
      exact .inr ⟨kind, .kernel rfl, rfl⟩
    | equal comparand | less comparand =>
      simp only [Kernel.operands, List.mem_cons, List.not_mem_nil, or_false, or_self] at htype
      subst htype
      cases comparand with
      | int => exact .inr ⟨.int, .kernel rfl, rfl⟩
      | long => exact .inr ⟨.long, .kernel rfl, rfl⟩
      | double => exact .inr ⟨.double, .kernel rfl, rfl⟩
      | timestamp => exact .inl rfl
      | _ => cases hquantity
    | conjunction | disjunction | negation | length | upper =>
      simp only [Kernel.operands, List.mem_cons, List.not_mem_nil, or_false, or_self] at htype
      subst htype
      cases hquantity
  | cast source target => cases hcast
  | total which =>
    obtain rfl := List.mem_singleton.mp hp
    cases which with
    | longSum => exact .inr ⟨.long, .total rfl, rfl⟩
    | doubleSum | average => exact .inr ⟨.double, .total rfl, rfl⟩
  | runningAverage =>
    obtain rfl := List.mem_singleton.mp hp
    exact .inr ⟨.double, .runningAverage rfl, rfl⟩
  | varcharLength | member =>
    obtain rfl := List.mem_singleton.mp hp
    cases hquantity
  | _ => cases hp

/-- Whether the builtin is a comparison of doubles that is given two words, which it compares as
they are. -/
def comparesWords : Builtin → List Value → Bool
  | kernel k, values => k.comparesWords values
  | _, _ => false

variable {settings : Settings} {name : String} {span : Span} {args : Args} {c after : Context}
  {b : Builtin} {adjusted : Args} {e : Evaluator} {i : Nat} {arg r : Evaluator} {p : Parameter}

/-- Kernels that ask for numbers take their operands as they are. -/
theorem build_of_numberKind? {k : Kernel} {kind : NumberKind} (h : k.numberKind? = some kind)
    (span : Span) (args : Args) (settings : Settings) (c : Context) :
    (kernel k).build span args settings c = .ok (.scalar k args.evaluators) := by
  cases k with
  | equal comparand | less comparand => cases comparand <;> first | rfl | cases h
  | _ => rfl

/-- With a stand-in for an argument that has values which stand for the argument's, a builtin that
asks for numbers has the same values. -/
theorem Call.sameValues_of_standsFor {kind : NumberKind} (hasks : b.AsksFor kind)
    (h : Call settings name span args c b adjusted e after)
    (hfixes : ∀ arg ∈ args.evaluators, arg.FixesConstants) (harg : args.get? i = some arg)
    (hp : b.descriptor.parameters[i]? = some p) (hr : Replaces after.table p.tag arg r) :
    ∃ e', b.overload.take settings name span (undefinedPlaces args) (args.set i r) c =
        (.ok e', after) ∧
      ∀ binds rows f, Maps binds f arg r →
        (∀ v ∈ (arg.evalRows binds rows).1, (f v).StandsFor kind v) →
        (∀ vs ∈ evalRowsAll binds rows adjusted.evaluators, b.comparesWords vs = false) →
          SameValues binds rows e e' := by
  cases hasks with
  | @kernel k asks =>
    obtain ⟨hkept, e', htake, hsame⟩ := h.sameValues_kernel
      (fun _ => build_of_numberKind? asks _ _ _ _) hfixes harg hp hr
    refine ⟨e', htake, fun binds rows f hmaps hstands hwords => ?_⟩
    refine (hsame binds rows f hmaps).mpr fun vs hvs => ?_
    obtain ⟨v, hv, hmem⟩ := exists_of_mem_evalRowsAll hkept hvs
    rw [List.modify_eq_set, hv, Option.getD_some]
    exact Kernel.apply_set asks hv (hstands v hmem) (hwords vs hvs)
  | total asks =>
    obtain ⟨e', htake, hsame⟩ := h.sameValues_total hfixes harg hp hr
    refine ⟨e', htake, fun binds rows f hmaps hstands _ => ?_⟩
    exact hsame binds rows f hmaps fun v hv => Sums.add_standsFor asks (hstands v hv)
  | runningAverage =>
    obtain ⟨e', htake, hsame⟩ := h.sameValues_runningAverage hfixes harg hp hr
    refine ⟨e', htake, fun binds rows f hmaps hstands _ => ?_⟩
    exact hsame binds rows f hmaps fun v hv => (hstands v hv).filter_asDouble?

/-- The types of whole numbers. -/
def wholeTypes : List TypeTag := [.byte, .short, .int, .long]

/-- Whole numbers meet LONGs better than doubles outside a window clause, and for less inside it. -/
theorem outranks_long : ∀ s ∈ wholeTypes, ∀ t ∈ wholeTypes, ∀ inWindow : Bool,
    (Overload.pairScore false inWindow (s.meets .long) (t.meets .long)).Outranks
      (Overload.pairScore false inWindow (s.meets .double) (t.meets .double)) := by
  decide

/-- A comparison is one of doubles only where the type of an argument is none of a whole number. Of
whole numbers it is a comparison of LONGs or INTs. -/
theorem Call.exists_of_comparesDoubles {k : Kernel}
    (h : Call settings name span args c (kernel k) adjusted e after) (hcompares : k.compares = true)
    (hkind : k.numberKind? = some .double) (hfixes : ∀ arg ∈ args.evaluators, arg.FixesConstants) :
    ∃ arg ∈ args.evaluators, arg.type.tag ∉ wholeTypes := by
  by_contra hnone
  simp only [not_exists, not_and, not_not] at hnone
  -- The comparison of LONGs of the same name is in the running.
  obtain ⟨rival, hrival, hname, hoperands, hoperands'⟩ : ∃ rival, kernel rival ∈ all ∧
      rival.symbol = k.symbol ∧ k.operands = [.double, .double] ∧
        rival.operands = [.long, .long] := by
    cases k with
    | equal comparand =>
      cases comparand with
      | double => exact ⟨.equal .long, by decide, rfl, rfl, rfl⟩
      | _ => cases hkind
    | less comparand =>
      cases comparand with
      | double => exact ⟨.less .long, by decide, rfl, rfl, rfl⟩
      | _ => cases hkind
    | _ => cases hcompares
  have harity := h.acceptsArity hfixes
  have hlower := h.name_eq
  obtain ⟨evaluators, positions⟩ := args
  have hsize : evaluators.length = 2 := by
    have hsize := eq_of_beq harity
    rw [Signature.fixedCount, descriptor, List.length_map, hoperands] at hsize
    exact hsize
  obtain ⟨a, b, rfl⟩ := List.length_eq_two.mp hsize
  simp only [List.mem_cons, List.not_mem_nil, or_false, forall_eq_or_imp, forall_eq] at hnone
  obtain ⟨ha, hb⟩ := hnone
  have hcall : isCastCall name ⟨[a, b], positions⟩ = false := by
    have hother : Text.eqIgnoringCase name "cast" = false := by
      rw [Text.eqIgnoringCase, ← hlower, lowerAscii_cast]
      cases k with
      | equal _ => exact (by decide : ("=" == "cast") = false)
      | less _ => exact (by decide : ("<" == "cast") = false)
      | _ => cases hcompares
    rw [isCastCall, hother]
    rfl
  have hwhole : ∀ t ∈ wholeTypes, t.distance .double ≠ noCoercion ∧
      t.distance .long ≠ noCoercion := by decide
  refine h.not_outranked hfixes hrival hname rfl (by simp [descriptor, Signature.acceptsArity,
    Signature.fixedCount, Signature.isVariadic, hoperands', Args.size]) ?_
  rw [hcall,
    Overload.score_numbers (kernel rival).overload ⟨[a, b], positions⟩ .long rfl
      (by simp only [overload, descriptor, hoperands', List.map]) rfl (hwhole _ ha).2
      (hwhole _ hb).2,
    Overload.score_numbers (kernel k).overload ⟨[a, b], positions⟩ .double rfl
      (by simp only [overload, descriptor, hoperands, List.map]) rfl (hwhole _ ha).1
      (hwhole _ hb).1]
  exact outranks_long _ ha _ hb c.inWindow

/-- A coercion of a number or an instant means what the explicit cast means. -/
theorem Call.coercion_means_cast (h : Call settings name span args c b adjusted e after)
    (hcast : b.isCast = false) (hfixes : ∀ arg ∈ args.evaluators, arg.FixesConstants)
    {source target : TypeTag} (harg : args.get? i = some arg)
    (hp : b.descriptor.parameters[i]? = some p) (hsource : arg.type = .of source)
    (htarget : p.type = .of target) (hquantity : source.isQuantity = true)
    (hquantity' : target.isQuantity = true) (hne : source ≠ target)
    (hinstant : ¬(source = .date ∧ target = .timestamp))
    (hallowed : (!c.allowNonDeterministic && arg.isNonDeterministic) = false) :
    ∃ castArg e',
      (∀ span positions, catalog.resolve settings "cast" span
        (castCall arg (.of target) positions) c = (.ok castArg, c)) ∧
      b.overload.take settings name span (undefinedPlaces args) (args.set i castArg) c =
        (.ok e', after) ∧
      ∀ binds schema rows, arg.Sound binds schema → (∀ row ∈ rows, row.Conforms schema) →
        (∀ vs ∈ evalRowsAll binds rows adjusted.evaluators, b.comparesWords vs = false) →
          SameValues binds rows e e' := by
  have htag : p.tag = target := by
    rw [Parameter.tag, Parameter.isArray, htarget]
    cases target <;> first | rfl | cases hquantity'
  -- The parameter takes the argument, so that the builtin asks for numbers of a wider kind.
  obtain ⟨arg', harg', hadmits⟩ := h.admits i p hp
  rw [harg] at harg'
  cases harg'
  have hdistance : source.distance target ≠ noCoercion := by
    have hne' : arg.type.tag ≠ p.tag := by rwa [hsource, htag]
    have hdistance := Parameter.distance_of_admits hadmits (by rw [hsource]; simp [hquantity]) hne'
    rwa [hsource, htag] at hdistance
  have hnumber : ∃ kind : NumberKind, b.AsksFor kind ∧ p.type = kind.type := by
    obtain htimestamp | hnumber :=
      asksFor_of_isQuantity hcast (List.mem_of_getElem? hp) (by rwa [htag])
    · obtain rfl : target = .timestamp := congrArg ColumnType.tag (htarget.symm.trans htimestamp)
      refine absurd ⟨?_, rfl⟩ hinstant
      clear hsource
      revert hquantity hne hdistance
      cases source <;> decide
    · exact hnumber
  obtain ⟨kind, hasks, hkind⟩ := hnumber
  have htargetKind : ColumnType.of target = kind.type := htarget.symm.trans hkind
  have hnarrower : arg.type.tag ∈ kind.narrower := by
    rw [hsource]
    refine (TypeTag.mem_narrower_iff kind hquantity).mpr ?_
    rw [← htargetKind]
    exact ⟨hne, hdistance⟩
  have hrewritten : arg.type.tag.isRewritten = false := by
    revert hnarrower
    generalize arg.type.tag = tag
    revert tag
    cases kind <;> decide
  have hdefined : arg.isUndefined = false := by
    rw [Evaluator.isUndefined, hsource]
    cases source <;> first | rfl | cases hquantity
  have harg' : arg.FixesConstants := hfixes arg (List.mem_of_getElem? harg)
  have hr := replaces_castOrNull settings.scales after.table (.of target) hdefined hrewritten
    harg' settings c.table
  obtain ⟨e', htake, hsame⟩ := h.sameValues_of_standsFor hasks hfixes harg hp (by rwa [htag])
  refine ⟨_, e', fun span positions => ?_, htake, fun binds schema rows hsound hrows hwords => ?_⟩
  · exact resolve_castCall settings (cast_mem_of_distance hquantity hquantity' hdistance) hsource
      (fun heq => hne (congrArg ColumnType.tag heq))
      (fun target position => rewriteArgument_of_not_isRewritten hrewritten _ target position) harg'
      hallowed span positions
  · refine hsame binds rows _ (maps_finish_castOrNull binds _ _ harg' settings c.table)
      (fun v hv => ?_) hwords
    rw [htargetKind]
    exact Value.standsFor_cast hnarrower (hsound.evalRows hrows v hv)

/-- A DATE and a number or an instant. -/
def dateAndOther (other : TypeTag) : Args :=
  ⟨[.column 0 .date "d", .column 1 (.of other) "x"], [⟨0, 1⟩, ⟨4, 1⟩]⟩

theorem fixesConstants_dateAndOther (other : TypeTag) :
    ∀ arg ∈ (dateAndOther other).evaluators, arg.FixesConstants := by
  intro arg harg
  simp only [dateAndOther, List.mem_cons, List.not_mem_nil, or_false] at harg
  obtain rfl | rfl := harg <;> exact .of_variable rfl

/-- A DATE and a LONG are added as LONGs. -/
theorem call_dateSum :
    Call .default "+" ⟨2, 1⟩ (dateAndOther .long) (.fresh 0) (kernel (.arithmetic .add .long))
      (dateAndOther .long) (.scalar (.arithmetic .add .long) (dateAndOther .long).evaluators)
      (.fresh 0) :=
  .mk (by decide) overloads?_plus rfl rfl rfl rfl

/-- A DATE is added to a LONG as its cast to a LONG is. -/
theorem Call.coercion_means_cast_dateSum :
    let row : Row := ⟨7, [.date 1, .long 1000]⟩
    let sum : Evaluator := .scalar (.arithmetic .add .long) (dateAndOther .long).evaluators
    ∃ castArg e',
      catalog.resolve .default "cast" .none (castCall (.column 0 .date "d") .long [])
          (.fresh 0) = (.ok castArg, .fresh 0) ∧
        (kernel (.arithmetic .add .long)).overload.take .default "+" ⟨2, 1⟩ []
            ((dateAndOther .long).set 0 castArg) (.fresh 0) = (.ok e', .fresh 0) ∧
          (sum.evalRows .empty [row]).1 = [.long 1001] ∧
            (e'.evalRows .empty [row]).1 = [.long 1001] := by
  intro row sum
  obtain ⟨castArg, e', hcast, htake, hsame⟩ := call_dateSum.coercion_means_cast rfl
    (fixesConstants_dateAndOther .long) (i := 0) rfl rfl rfl rfl rfl rfl (by decide) (by decide) rfl
  have hrow : row.Conforms (.ofColumns [.plain "d" .date, .plain "x" .long]) := by
    intro i hi
    match i with
    | 0 | 1 => rfl
    | _ + 2 => exact absurd hi (by simp [Schema.ofColumns, Schema.empty])
  have hvalues : (sum.evalRows .empty [row]).1 = [.long 1001] := by
    simp only [sum, dateAndOther, Evaluator.evalRows, Evaluator.eval, Evaluator.evalAll]
    rfl
  refine ⟨castArg, e', hcast .none [], htake, hvalues, ?_⟩
  rw [← hvalues]
  refine (hsame .empty _ [row] ⟨rfl, rfl⟩ (List.forall_mem_singleton.mpr hrow) ?_).evalRows.symm
  intro vs _
  rfl

def equalities : List Builtin :=
  [Comparand.int, .long, .double, .char, .string, .boolean, .timestamp, .uuid].map
    fun comparand => kernel (.equal comparand)

theorem overloads?_equal : catalog.overloads? "=" = some (equalities.map overload) :=
  overloads?_of_filter (List.cons_ne_nil _ _) (by decide +kernel)

/-- A DATE that is compared with a TIMESTAMP is not the same instant, though the cast is. -/
theorem not_coercion_means_cast_dateAsTimestamp :
    let row : Row := ⟨7, [.date 1, .timestamp 1000]⟩
    ∃ e castArg e',
      Call .default "=" ⟨2, 1⟩ (dateAndOther .timestamp) (.fresh 0) (kernel (.equal .timestamp))
          (dateAndOther .timestamp) e (.fresh 0) ∧
        catalog.resolve .default "cast" .none (castCall (.column 0 .date "d") .timestamp [])
            (.fresh 0) = (.ok castArg, .fresh 0) ∧
          (kernel (.equal .timestamp)).overload.take .default "=" ⟨2, 1⟩ []
              ((dateAndOther .timestamp).set 0 castArg) (.fresh 0) = (.ok e', .fresh 0) ∧
            e.value .empty row = .boolean false ∧ e'.value .empty row = .boolean true := by
  refine ⟨.scalar (.equal .timestamp) (dateAndOther .timestamp).evaluators, _, _,
    .mk (by decide +kernel) overloads?_equal rfl rfl rfl rfl,
    resolve_castCall .default (by decide +kernel : cast .date .timestamp ∈ all) rfl (by decide)
      (fun target position => rewriteArgument_of_not_isRewritten rfl _ target position)
      (.of_variable rfl) rfl .none [], rfl, ?_, ?_⟩
  · simp only [dateAndOther, Evaluator.value, Evaluator.eval, Evaluator.evalAll]
    rfl
  · simp only [dateAndOther, castOrNull, Evaluator.value]
    rfl

end Builtin
end SqlResolution
