import SqlResolution.Proofs.Builtin.Coercion

/-!
# Texts in the place of numbers

A builtin that asks for numbers takes a text and does not parse it: it does with it what it does
with a null. Only where the other operand of a comparison is text on a row are the two texts
compared. A cast never takes a text for a number, since there is a cast from every type of text to
every type.
-/
namespace SqlResolution

open Evaluator

/-! ### Kernels and sums -/

namespace Kernel

/-- Whether a comparison is given two texts, which it compares. -/
def comparesTexts (k : Kernel) (values : List Value) : Bool :=
  k.compares && !values.any Value.isNull && (values.getD 0 .null).asStr?.isSome &&
    (values.getD 1 .null).asStr?.isSome

variable {k : Kernel} {kind : NumberKind} {values : List Value} {i : Nat} {s : String}

/-- Kernels that ask for numbers are null for a null. -/
theorem apply_of_null (hk : k.numberKind? = some kind) (h : values.any Value.isNull = true) :
    k.apply values = .null := by
  rw [apply_eq_onOperands hk, if_pos h]

/-- A text is no number, and is compared with texts alone. -/
theorem onOperands_str (hk : k.numberKind? = some kind) (hi : i < k.operands.length)
    (hv : values[i]? = some (.str s)) :
    k.onOperands (values.getD 0 .null) (values.getD 1 .null) = .null ↔
      (k.compares && (values.getD 0 .null).asStr?.isSome &&
        (values.getD 1 .null).asStr?.isSome) = false := by
  have hvalue : values.getD i .null = .str s := by
    rw [List.getD_eq_getElem?_getD, hv, Option.getD_some]
  have hplace : i < 2 → i = 0 ∨ i = 1 := by omega
  cases k with
  | arithmetic op kind' =>
    refine iff_of_true ?_ rfl
    obtain rfl | rfl := hplace hi
    · rw [hvalue]
      cases kind' <;> rfl
    · have hnone : ∀ a, onNumbers? op kind' a (.str s) = none := by
        cases kind' <;> simp [onNumbers?, Value.asInt32?, Value.asInt64?, Value.asDouble?]
      rw [hvalue]
      simp [onOperands, hnone]
  | negate kind' | magnitude kind' =>
    refine iff_of_true ?_ rfl
    obtain rfl := Nat.lt_one_iff.mp hi
    rw [hvalue]
    cases kind' <;> rfl
  | equal comparand | less comparand =>
    obtain rfl | rfl := hplace hi
    · rw [hvalue]
      exact (test_str_eq_null_iff _ s _).1.trans (by simp [compares, Value.asStr?])
    · rw [hvalue]
      exact (test_str_eq_null_iff _ s _).2.trans (by simp [compares, Value.asStr?])
  | _ => cases hk

/-- A kernel that asks for numbers is null for a text, unless it compares the text with another. -/
theorem apply_str (hk : k.numberKind? = some kind) (hi : i < k.operands.length)
    (hv : values[i]? = some (.str s)) :
    k.apply values = .null ↔ k.comparesTexts values = false := by
  have htext := onOperands_str hk hi hv
  rw [apply_eq_onOperands hk, comparesTexts]
  cases hnull : values.any Value.isNull with
  | true => simp
  | false => simpa using htext

end Kernel

namespace Builtin

/-- Whether the builtin is a comparison that is given two texts. -/
def comparesTexts : Builtin → List Value → Bool
  | kernel k, values => k.comparesTexts values
  | _, _ => false

variable {settings : Settings} {name : String} {span : Span} {args : Args} {c after : Context}
  {b : Builtin} {adjusted : Args} {e : Evaluator} {i : Nat} {arg : Evaluator} {p : Parameter}
  {kind : NumberKind}

theorem isString_of_isNumeric {t : TypeTag} (h : t.isNumeric = true) : t.isString = false := by
  revert h
  cases t <;> decide

/-- There is a cast from each type of text to each type. -/
theorem cast_mem_of_isString {source : TypeTag} {target : ColumnType}
    (hsource : source.isString = true) (htarget : target ∈ castTypes) :
    cast (.of source) target ∈ all := by
  have hall : ∀ s ∈ TypeTag.all.filter TypeTag.isString,
      ColumnType.of s ∈ castTypes ∧ isText s = true := by decide
  obtain ⟨hmem, htext⟩ := hall source (List.mem_filter.mpr ⟨source.mem_all, hsource⟩)
  have hconverts : converts source target.tag = true := by simp [converts, htext]
  exact cast_mem_all_iff.mpr ⟨hmem, htarget, hconverts⟩

/-- What goes to a cast is a call of a cast. -/
theorem Call.isCastCall_of_cast {source target : ColumnType}
    (h : Call settings name span args c (cast source target) adjusted e after)
    (hfixes : ∀ arg ∈ args.evaluators, arg.FixesConstants) : isCastCall name args = true := by
  have hname : Text.eqIgnoringCase name "cast" = true := by
    rw [Text.eqIgnoringCase, ← h.name_eq, beq_iff_eq]
    exact lowerAscii_cast.symm
  have hsize : args.size = 2 := eq_of_beq (h.acceptsArity hfixes)
  obtain ⟨type, htype, hadmits⟩ := h.admits 1 ⟨target, true⟩ rfl
  have hconstant : type.isConstant = true := by
    by_contra hvariable
    simp [Parameter.admits, hvariable] at hadmits
  simp [isCastCall, hname, hsize, htype, hconstant]

/-- A text meets a parameter of its own type better than one of a number. -/
theorem outranks_number : ∀ source ∈ TypeTag.all.filter TypeTag.isString,
    ∀ target ∈ TypeTag.all.filter TypeTag.isNumeric, ∀ inWindow : Bool,
      (Overload.pairScore false inWindow .exact .exact).Outranks
        (Overload.pairScore false inWindow (source.meets target) .exact) := by
  decide +kernel

/-- A text does not go to a cast from a number. -/
theorem Call.not_castOfNumber {source : TypeTag} {target : ColumnType}
    (h : Call settings name span args c (cast (.of source) target) adjusted e after)
    (hsource : source.isNumeric = true) (hfixes : ∀ arg ∈ args.evaluators, arg.FixesConstants)
    (harg : args.get? 0 = some arg) (htext : arg.type.tag.isString = true) : False := by
  have htarget : target ∈ castTypes := (cast_mem_all_iff.mp h.mem).2.1
  have hcall := h.isCastCall_of_cast hfixes
  have hadmits := h.admits
  have harity := h.acceptsArity hfixes
  obtain ⟨evaluators, positions⟩ := args
  obtain ⟨operand, type, rfl⟩ := List.length_eq_two.mp (eq_of_beq harity)
  cases harg
  obtain ⟨_, hfirst, hoperand⟩ := hadmits 0 ⟨.of source, false⟩ rfl
  cases hfirst
  obtain ⟨_, hsecond, htype⟩ := hadmits 1 ⟨target, true⟩ rfl
  cases hsecond
  have hdistance : arg.type.tag.distance source ≠ noCoercion := by
    have htag : (⟨.of source, false⟩ : Parameter).tag = source := by
      cases source <;> first | rfl | cases hsource
    have hne : arg.type.tag ≠ (⟨.of source, false⟩ : Parameter).tag := by
      rw [htag]
      rintro heq
      rw [heq, isString_of_isNumeric hsource] at htext
      cases htext
    have hdistance := Parameter.distance_of_admits hoperand (by simp [htext]) hne
    rwa [htag] at hdistance
  -- The type is met exactly by the cast from a number and by that from the text's own type.
  have hexact : (⟨target, true⟩ : Parameter).matchArgument true
      (isCastCall name ⟨[arg, type], positions⟩) c.table type = (.exact, type) := by
    rw [hcall] at htype ⊢
    exact Parameter.matchArgument_castType htype (hfixes type (by simp)) c.table
  refine h.not_outranked hfixes (cast_mem_of_isString htext htarget) rfl rfl rfl ?_
  rw [Overload.score_pair (cast (.of arg.type.tag) target).overload ⟨[arg, type], positions⟩
      c.inWindow rfl rfl (Parameter.matchArgument_text htext _ _) ArgumentMatch.noConfusion hexact
      ArgumentMatch.noConfusion,
    Overload.score_pair (cast (.of source) target).overload ⟨[arg, type], positions⟩ c.inWindow rfl
      rfl (Parameter.matchArgument_number hsource hdistance _ _) (TypeTag.meets_ne_none _ _) hexact
      ArgumentMatch.noConfusion]
  exact outranks_number _ (List.mem_filter.mpr ⟨TypeTag.mem_all _, htext⟩) _
    (List.mem_filter.mpr ⟨source.mem_all, hsource⟩) c.inWindow

/-- The type of a cast is no text in the place of a number. -/
theorem Parameter.not_admits_text {target : TypeTag} (htarget : target.isNumeric = true)
    {constant charFitsString : Bool} (htext : arg.type.tag.isString = true) :
    (⟨.of target, constant⟩ : Parameter).admits charFitsString true arg = false := by
  have htag : (⟨.of target, constant⟩ : Parameter).tag = target := by
    cases target <;> first | rfl | cases htarget
  have hother : (target == arg.type.tag) = false := by
    rw [beq_eq_false_iff_ne]
    rintro rfl
    rw [isString_of_isNumeric htarget] at htext
    cases htext
  have hplain : (arg.type.tag == .char) = false ∧ arg.type.tag.isGeohash = false ∧
      (arg.type.tag == .arrayString) = false ∧ (arg.type.tag == .array) = false := by
    generalize arg.type.tag = tag at htext
    revert htext
    cases tag <;> decide
  simp [Parameter.admits, Parameter.matchesExactly, Parameter.takesCharAsString, ColumnType.isArray,
    ColumnType.isGeohash, htag, hother, hplain]

/-- The numbers that builtins ask for. -/
theorem isNumeric_of_kind {p : Parameter} (h : p.type = kind.type) :
    ∃ target : TypeTag, p.type = .of target ∧ p.tag = target ∧ target.isNumeric = true ∧
      target.isTemporal = false ∧ target.isQuantity = true := by
  rw [Parameter.tag, Parameter.isArray, h]
  cases kind <;> exact ⟨_, rfl, rfl, rfl, rfl, rfl⟩

/-- A builtin that a text goes to in the place of a number asks for numbers of the kind. -/
theorem Call.asksFor_of_text (h : Call settings name span args c b adjusted e after)
    (hfixes : ∀ arg ∈ args.evaluators, arg.FixesConstants) (harg : args.get? i = some arg)
    (hp : b.descriptor.parameters[i]? = some p) (htext : arg.type.tag.isString = true)
    (hkind : p.type = kind.type) : b.AsksFor kind := by
  obtain ⟨target, htarget, htag, hnumeric, -, hquantity⟩ := isNumeric_of_kind hkind
  have hcast : b.isCast = false := by
    cases b with
    | cast source type =>
      match i with
      | 0 =>
        cases hp
        obtain rfl : source = .of target := htarget
        exact (h.not_castOfNumber hnumeric hfixes harg htext).elim
      | 1 =>
        cases hp
        obtain rfl : type = .of target := htarget
        obtain ⟨_, harg', hadmits⟩ := h.admits 1 ⟨.of target, true⟩ rfl
        rw [harg] at harg'
        cases harg'
        rw [h.isCastCall_of_cast hfixes] at hadmits
        exact absurd hadmits (Bool.eq_false_iff.mp (Parameter.not_admits_text hnumeric htext))
      | _ + 2 => cases hp
    | _ => rfl
  obtain htimestamp | ⟨kind', hasks, hkind'⟩ :=
    asksFor_of_isQuantity hcast (List.mem_of_getElem? hp) (by rwa [htag])
  · rw [hkind] at htimestamp
    cases kind <;> cases htimestamp
  · obtain rfl : kind = kind' := by
      rw [hkind] at hkind'
      cases kind <;> cases kind' <;> first | rfl | cases hkind'
    exact hasks

/-- A null of the parameter's type may take the place of a text. -/
theorem replaces_nullOf (htext : arg.type.tag.isString = true) (hkind : p.type = kind.type)
    (binds : BindTable) : Replaces binds p.tag arg (.nullOf p.type) := by
  obtain ⟨target, htarget, htag, -, htemporal, -⟩ := isNumeric_of_kind hkind
  have hplain : (Evaluator.nullOf p.type).FixesConstants := .of_plain (by simp [nullOf, Plain])
  refine ⟨?_, fun position => ?_, fun position => ?_, hplain, fun hrandom => by cases hrandom⟩
  · rw [Evaluator.isUndefined, ColumnType.isUndefined]
    generalize arg.type.tag = tag at htext
    revert htext
    cases tag <;> decide
  · exact rewriteArgument_of_isString htext (fun _ => by rw [htag, htemporal]) _ position
  · have hself := rewriteArgument_self hplain binds position
    have hnull : (Evaluator.nullOf p.type).type.tag = p.tag := by
      rw [nullOf, Evaluator.type, htarget, htag, ColumnType.tag_of]
    rwa [hnull] at hself

/-- A text in the place of a number means what a null means exactly on rows where it is not compared
with another text. -/
theorem Call.text_means_null_iff (kind : NumberKind)
    (h : Call settings name span args c b adjusted e after)
    (hfixes : ∀ arg ∈ args.evaluators, arg.FixesConstants) (harg : args.get? i = some arg)
    (hp : b.descriptor.parameters[i]? = some p) (htext : arg.type.tag.isString = true)
    (hkind : p.type = kind.type) :
    ∃ e', b.overload.take settings name span (undefinedPlaces args)
        (args.set i (.nullOf p.type)) c = (.ok e', after) ∧
      ∀ binds schema rows, arg.Sound binds schema → (∀ row ∈ rows, row.Conforms schema) →
        (SameValues binds rows e e' ↔
          ∀ vs ∈ evalRowsAll binds rows adjusted.evaluators, b.comparesTexts vs = false) := by
  have hr := replaces_nullOf htext hkind after.table
  have hmaps : ∀ binds, Maps binds (fun _ => .null) arg (.nullOf p.type) := fun binds =>
    maps_constant binds p.type .null arg
  cases h.asksFor_of_text hfixes harg hp htext hkind with
  | @kernel k asks =>
    obtain ⟨hkept, e', htake, hsame⟩ := h.sameValues_kernel
      (fun _ => build_of_numberKind? asks _ _ _ _) hfixes harg hp hr
    have hi : i < k.operands.length := by
      have hi := (List.getElem?_eq_some_iff.mp hp).1
      rwa [descriptor, List.length_map] at hi
    refine ⟨e', htake, fun binds schema rows hsound hrows => ?_⟩
    refine (hsame binds rows _ (hmaps binds)).trans (forall₂_congr fun vs hvs => ?_)
    obtain ⟨v, hv, hmem⟩ := exists_of_mem_evalRowsAll hkept hvs
    have hmissing : k.apply (vs.modify i fun _ => .null) = .null := by
      refine Kernel.apply_of_null asks (List.any_eq_true.mpr ⟨.null, ?_, rfl⟩)
      rw [List.modify_eq_set]
      exact List.mem_set (List.getElem?_eq_some_iff.mp hv).1 _
    rw [hmissing, eq_comm]
    obtain rfl | ⟨s, rfl⟩ := str_or_null htext (hsound.evalRows hrows v hmem)
    · have hnull : vs.any Value.isNull = true :=
        List.any_eq_true.mpr ⟨.null, List.mem_of_getElem? hv, rfl⟩
      exact iff_of_true (Kernel.apply_of_null asks hnull)
        (by simp [comparesTexts, Kernel.comparesTexts, hnull])
    · exact Kernel.apply_str asks hi hv
  | @total which asks =>
    obtain ⟨e', htake, hsame⟩ := h.sameValues_total hfixes harg hp hr
    refine ⟨e', htake, fun binds schema rows hsound hrows => iff_of_true ?_ fun _ _ => rfl⟩
    refine hsame binds rows _ (hmaps binds) fun v hv sums => ?_
    obtain rfl | ⟨s, rfl⟩ := str_or_null htext (hsound.evalRows hrows v hv)
    · rfl
    · cases which <;> rfl
  | runningAverage =>
    obtain ⟨e', htake, hsame⟩ := h.sameValues_runningAverage hfixes harg hp hr
    refine ⟨e', htake, fun binds schema rows hsound hrows => iff_of_true ?_ fun _ _ => rfl⟩
    refine hsame binds rows _ (hmaps binds) fun v hv => ?_
    obtain rfl | ⟨s, rfl⟩ := str_or_null htext (hsound.evalRows hrows v hv) <;> rfl

/-- A text column and a LONG column. -/
def textAndLong : Args :=
  ⟨[.column 0 .string "s", .column 1 .long "l"], [⟨0, 1⟩, ⟨4, 1⟩]⟩

theorem fixesConstants_textAndLong : ∀ arg ∈ textAndLong.evaluators, arg.FixesConstants := by
  intro arg harg
  simp only [textAndLong, List.mem_cons, List.not_mem_nil, or_false] at harg
  obtain rfl | rfl := harg <;> exact .of_variable rfl

theorem call_textSum :
    Call .default "+" ⟨2, 1⟩ textAndLong (.fresh 0) (kernel (.arithmetic .add .long)) textAndLong
      (.scalar (.arithmetic .add .long) textAndLong.evaluators) (.fresh 0) :=
  .mk (by decide) overloads?_plus rfl rfl rfl rfl

/-- A text that writes a number is added to a LONG as a null is. -/
theorem Call.text_means_null_iff_textSum :
    let row : Row := ⟨7, [.str "3", .long 3]⟩
    let sum : Evaluator := .scalar (.arithmetic .add .long) textAndLong.evaluators
    ∃ e', (kernel (.arithmetic .add .long)).overload.take .default "+" ⟨2, 1⟩ []
        (textAndLong.set 0 (.nullOf .long)) (.fresh 0) = (.ok e', .fresh 0) ∧
      (sum.evalRows .empty [row]).1 = [.null] ∧ (e'.evalRows .empty [row]).1 = [.null] := by
  intro row sum
  obtain ⟨e', htake, hsame⟩ := call_textSum.text_means_null_iff .long
    fixesConstants_textAndLong (i := 0) rfl rfl rfl rfl
  have hrow : row.Conforms (.ofColumns [.plain "s" .string, .plain "l" .long]) := by
    intro i hi
    match i with
    | 0 | 1 => rfl
    | _ + 2 => exact absurd hi (by simp [Schema.ofColumns, Schema.empty])
  have hvalues : (sum.evalRows .empty [row]).1 = [.null] := by
    simp only [sum, textAndLong, Evaluator.evalRows, Evaluator.eval, Evaluator.evalAll]
    rfl
  refine ⟨e', htake, hvalues, ?_⟩
  rw [← hvalues]
  have hrows := hsame .empty _ [row] ⟨rfl, rfl⟩ (List.forall_mem_singleton.mpr hrow)
  exact (hrows.mpr fun _ _ => rfl).evalRows.symm

/-- A text that writes a LONG is not compared with the LONG, though its cast is. -/
theorem not_text_means_cast_equal :
    let row : Row := ⟨7, [.str "3", .long 3]⟩
    ∃ e castArg e',
      Call .default "=" ⟨2, 1⟩ textAndLong (.fresh 0) (kernel (.equal .long)) textAndLong e
          (.fresh 0) ∧
        catalog.resolve .default "cast" .none (castCall (.column 0 .string "s") .long [])
            (.fresh 0) = (.ok castArg, .fresh 0) ∧
          (kernel (.equal .long)).overload.take .default "=" ⟨2, 1⟩ [] (textAndLong.set 0 castArg)
              (.fresh 0) = (.ok e', .fresh 0) ∧
            e.value .empty row = .null ∧ e'.value .empty row = .boolean true := by
  refine ⟨.scalar (.equal .long) textAndLong.evaluators, _, _,
    .mk (by decide +kernel) overloads?_equal rfl rfl rfl rfl,
    resolve_castCall .default (by decide +kernel : cast .string .long ∈ all) rfl (by decide)
      (fun target position => rewriteArgument_of_isString rfl (fun h => by cases h) _ position)
      (.of_variable rfl) rfl .none [], rfl, ?_, ?_⟩
  · simp only [textAndLong, Evaluator.value, Evaluator.eval, Evaluator.evalAll]
    rfl
  · simp only [textAndLong, castOrNull, Evaluator.value]
    rfl

end Builtin
end SqlResolution
