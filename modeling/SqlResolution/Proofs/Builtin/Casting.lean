import SqlResolution.Proofs.Builtin.Congruence
import SqlResolution.Proofs.Builtin.Constants

/-!
# Explicit casts

A call of `cast` on an operand with a cast to the target always resolves, to a cast of the operand
to the target whichever overload is taken, or to null where the operand is a null. On rows one after
another it has the operand's values, cast.
-/
namespace SqlResolution

open Evaluator Steps

/-- A parameter leaves an argument that has its own type as it is. -/
theorem rewriteArgument_self {e : Evaluator} (h : e.FixesConstants) (binds : BindTable)
    (position : Span) : rewriteArgument binds e.type.tag e position = .ok e := by
  unfold rewriteArgument
  dsimp only
  split
  · rename_i hdouble
    obtain ⟨htag, hconstant⟩ := Bool.and_eq_true_iff.mp hdouble
    have hsame : (e.evalConstant binds).2 = e := (h hconstant).snd_eval binds .empty
    simp [eq_of_beq htag, hsame]
  · split
    · rename_i htext
      have htemporal : e.type.tag.isTemporal = false := by
        generalize e.type.tag = tag at htext ⊢
        cases tag <;> first | rfl | cases htext
      rw [htemporal]
      rfl
    · split
      · rename_i huuid
        obtain ⟨hstring, hsource⟩ := Bool.and_eq_true_iff.mp huuid
        rw [eq_of_beq hstring] at hsource
        cases hsource
      · split
        · rename_i hinterval
          obtain ⟨hstring, hsource⟩ := Bool.and_eq_true_iff.mp hinterval
          rw [eq_of_beq hstring] at hsource
          cases hsource
        · rfl

/-- The types whose values a parameter may have brought into another form. -/
def TypeTag.isRewritten (t : TypeTag) : Bool :=
  t == .double || t.isString || t == .uuid || t == .interval

theorem rewriteArgument_of_not_isRewritten {e : Evaluator} (h : e.type.tag.isRewritten = false)
    (binds : BindTable) (target : TypeTag) (position : Span) :
    rewriteArgument binds target e position = .ok e := by
  simp only [TypeTag.isRewritten, Bool.or_eq_false_iff] at h
  obtain ⟨⟨⟨hdouble, hstring⟩, huuid⟩, hinterval⟩ := h
  simp [rewriteArgument, hdouble, hstring, huuid, hinterval]

/-- Text is brought into another form for a date or a timestamp alone, and only where it is a
constant. -/
theorem rewriteArgument_of_isString {e : Evaluator} {target : TypeTag}
    (h : e.type.tag.isString = true) (htarget : e.isConstant = true → target.isTemporal = false)
    (binds : BindTable) (position : Span) : rewriteArgument binds target e position = .ok e := by
  have hother : (e.type.tag == .double) = false ∧ (e.type.tag == .uuid) = false ∧
      (e.type.tag == .interval) = false := by
    generalize e.type.tag = tag at h
    cases tag <;> first | decide | cases h
  obtain ⟨hdouble, huuid, hinterval⟩ := hother
  cases hconstant : e.isConstant with
  | true => simp [rewriteArgument, hdouble, h, hconstant, htarget hconstant]
  | false => simp [rewriteArgument, hdouble, huuid, hinterval, hconstant]

namespace Builtin

/-- Whether the builtin is a cast. -/
def isCast : Builtin → Bool
  | cast _ _ => true
  | _ => false

theorem isCast_of_name : ∀ b ∈ all, b.descriptor.name = "cast" → b.isCast = true := by
  decide +kernel

/-- A call of a cast's name, of an operand and a type. -/
def castCall (operand : Evaluator) (target : ColumnType) (positions : List Span) : Args :=
  ⟨[operand, .typeName target], positions⟩

variable {settings : Settings} {span : Span} {positions : List Span} {c : Context}
  {operand : Evaluator} {target : ColumnType}

theorem isCastCall_castCall (operand : Evaluator) (target : ColumnType) (positions : List Span) :
    isCastCall "cast" (castCall operand target positions) = true := by
  have hname : Text.eqIgnoringCase "cast" "cast" = true := beq_iff_eq.mpr rfl
  unfold isCastCall
  rw [hname]
  rfl

theorem fixesConstants_castCall (h : operand.FixesConstants) (target : ColumnType)
    (positions : List Span) :
    ∀ e ∈ (castCall operand target positions).evaluators, e.FixesConstants := by
  refine List.forall_mem_cons.mpr ⟨h, List.forall_mem_cons.mpr ⟨fun _ => ?_, fun _ hmem => ?_⟩⟩
  · simp [Plain]
  · cases hmem

theorem undefinedPlaces_castCall (hoperand : operand.isUndefined = false)
    (htarget : target.isUndefined = false) :
    undefinedPlaces (castCall operand target positions) = [] := by
  refine List.eq_nil_iff_forall_not_mem.mpr fun i hi => ?_
  obtain ⟨e, he, hundefined⟩ := mem_undefinedPlaces.mp hi
  match i with
  | 0 =>
    cases he
    rw [hoperand] at hundefined
    cases hundefined
  | 1 =>
    cases he
    rw [Evaluator.isUndefined, Evaluator.type, htarget] at hundefined
    cases hundefined
  | _ + 2 => cases he

/-- The place of a cast's target takes a type name of its own type alone. -/
theorem type_of_admits_target {p : Parameter} (hp : p.type ∈ castTypes)
    (htarget : target ∈ castTypes) (hadmits : p.admits true true (.typeName target) = true) :
    p.type = target := by
  obtain ⟨type, constant⟩ := p
  have hall : ∀ type ∈ castTypes, ∀ target ∈ castTypes, ∀ constant : Bool,
      (⟨type, constant⟩ : Parameter).admits true true (.typeName target) = true →
        type = target := by decide +kernel
  exact hall type hp target htarget constant hadmits

/-- A cast of a type to another takes an operand of the type. -/
theorem score_castCall {source : ColumnType} (hsource : source ∈ castTypes)
    (htarget : target ∈ castTypes) (hoperand : operand.type = source) (binds : BindTable)
    (inWindow : Bool) :
    ((cast source target).overload.score binds true inWindow
      (castCall operand target positions)).1.level ≠ .noMatch := by
  have hflat : ∀ type ∈ castTypes, type.isArray = false := by decide
  have hexact : ∀ i p, (cast source target).descriptor.parameters[i]? = some p →
      ∃ e, (castCall operand target positions).get? i = some e ∧ e.type.tag = p.tag ∧
        p.isArray = false ∧ (p.constant = true → e.isConstant = true) := by
    intro i p hp
    match i with
    | 0 =>
      cases hp
      refine ⟨operand, rfl, ?_, hflat source hsource, fun hconstant => by cases hconstant⟩
      rw [hoperand, Parameter.tag, Parameter.isArray, hflat source hsource]
      rfl
    | 1 =>
      cases hp
      refine ⟨.typeName target, rfl, ?_, hflat target htarget, fun _ => rfl⟩
      rw [Parameter.tag, Parameter.isArray, hflat target htarget]
      rfl
    | _ + 2 => cases hp
  rw [Overload.score_ne_noMatch_iff]
  constructor
  · intro i p hp
    obtain ⟨e, he, htag, hplain, hconstant⟩ := hexact i p hp
    exact ⟨e, he, Parameter.admits_of_tag_eq htag hplain hconstant⟩
  · intro i p e hp he
    obtain ⟨e', he', htag, -, -⟩ := hexact i p hp
    rw [he] at he'
    cases he'
    by_cases hstring : e.type.tag = .string
    · exact Parameter.isTooShortFor_of_ne_char (by rw [← htag, hstring]; decide)
    · exact Parameter.isTooShortFor_of_ne_string hstring

/-- An overload of `cast` leaves an operand as it is that its parameter does not rewrite. -/
theorem adjust_castCall {source : ColumnType} (htarget : target ∈ castTypes)
    (hkeeps : ∀ position, rewriteArgument c.table (⟨source, false⟩ : Parameter).tag operand
      position = .ok operand)
    (hdefined : operand.isUndefined = false) (name : String) :
    (cast source target).overload.adjust name
      (undefinedPlaces (castCall operand target positions)) (castCall operand target positions) c =
        (.ok (castCall operand target positions), c) := by
  have hrewrite : Overload.rewriteAll c.table 0 (cast source target).descriptor.parameters
      (castCall operand target positions) = .ok (castCall operand target positions) := by
    have hself : (Evaluator.typeName target).FixesConstants := fun _ => by simp [Plain]
    have htag : (⟨target, true⟩ : Parameter).tag = (Evaluator.typeName target).type.tag := by
      have hflat : ∀ type ∈ castTypes, type.isArray = false := by decide
      rw [Parameter.tag, Parameter.isArray, hflat target htarget]
      rfl
    simp only [descriptor, Overload.rewriteAll, Args.mapAt, castCall, Args.get?,
      List.getElem?_cons_zero, List.getElem?_cons_succ, Args.set, List.set_cons_zero,
      List.set_cons_succ, hkeeps, htag,
      rewriteArgument_self hself]
  rw [undefinedPlaces_castCall hdefined (isUndefined_of_mem_castTypes target htarget),
    Overload.adjust_nil rfl]
  exact congrArg (·, c) hrewrite

/-- A cast is built of two arguments. -/
theorem exists_pair_of_build_cast {source target : ColumnType} {evaluators : List Evaluator}
    {positions : List Span} {span : Span} {settings : Settings} {c : Context} {e : Evaluator}
    (h : (cast source target).build span ⟨evaluators, positions⟩ settings c = .ok e) :
    ∃ operand type, evaluators = [operand, type] := by
  cases makes_of_build h with
  | nullCast _ _ two => exact ⟨_, _, two⟩
  | cast _ _ two => exact ⟨_, _, two⟩

/-- What is built of an operand that is no untyped null does not depend on the second argument. -/
theorem build_cast (source target : ColumnType) (type : Evaluator) (positions : List Span)
    (hnull : operand.type.isNull = false) (span : Span) (settings : Settings) (c : Context) :
    (cast source target).build span ⟨[operand, type], positions⟩ settings c =
      .ok (castOrNull settings.scales target operand) := by
  simp only [build, buildCast, castOrNull, hnull, Bool.false_or]
  split <;> rfl

/-- A cast to another type is no cast to the operand's own, and goes on to the overloads. -/
theorem elision_castCall (hne : operand.type ≠ target) (hdefined : operand.isUndefined = false) :
    elision "cast" (castCall operand target positions) c =
      (.ok (false, castCall operand target positions), c) := by
  have htypes : (operand.type == target) = false := beq_eq_false_iff_ne.mpr hne
  rw [elision, if_pos (isCastCall_castCall ..), elideCast_apply]
  simp [castCall, Args.get?, Evaluator.type, htypes, hdefined]

/-- Where there is a cast from the operand's type to the target, some cast to the target wins. -/
theorem exists_cast_wins {source : ColumnType} (hcast : cast source target ∈ all)
    (hoperand : operand.type = source) (hfixes : operand.FixesConstants) (binds : BindTable)
    (inWindow : Bool) (positions : List Span) :
    ∃ overloads source', catalog.overloads? "cast" = some overloads ∧
      (cast source target).overload ∈ overloads ∧ cast source' target ∈ all ∧
        (scan binds true inWindow 0 overloads .start
          (castCall operand target positions)).1.winner.bind (overloads[·]?) =
            some (cast source' target).overload := by
  obtain ⟨hsource, htarget, -⟩ := cast_mem_all_iff.mp hcast
  have hnamed : cast source target ∈ all.filter (·.descriptor.name == Text.lowerAscii "cast") :=
    List.mem_filter.mpr ⟨hcast, beq_iff_eq.mpr lowerAscii_cast.symm⟩
  obtain ⟨overloads, hname, hmem⟩ : ∃ overloads, catalog.overloads? "cast" = some overloads ∧
      (cast source target).overload ∈ overloads :=
    ⟨_, overloads?_of_filter (List.ne_nil_of_mem hnamed) rfl, List.mem_map_of_mem hnamed⟩
  obtain ⟨w, hw, hwinner⟩ := exists_winner hmem (fixesConstants_castCall hfixes target positions)
    rfl (score_castCall hsource htarget hoperand binds inWindow)
  obtain ⟨b, hb, rfl, hlower⟩ := exists_of_mem_overloads hname hw
  have hisCast : b.isCast = true := isCast_of_name b hb (hlower.trans lowerAscii_cast)
  cases b with
  | cast source' target' =>
    obtain ⟨e, he, hadmits⟩ := Overload.admits_of_winner hwinner 1 ⟨target', true⟩ rfl
    cases he
    obtain rfl : target' = target :=
      type_of_admits_target (cast_mem_all_iff.mp hb).2.1 htarget hadmits
    exact ⟨overloads, source', hname, hmem, hb, hwinner⟩
  | _ => cases hisCast

/-- Every overload of `cast` to a target does the same. -/
theorem take_castCall (settings : Settings) (source : ColumnType) (htarget : target ∈ castTypes)
    (hkeeps : ∀ position, rewriteArgument c.table (⟨source, false⟩ : Parameter).tag operand
      position = .ok operand)
    (hdefined : operand.isUndefined = false) (hnull : operand.type.isNull = false)
    (hallowed : (!c.allowNonDeterministic && operand.isNonDeterministic) = false) (name : String)
    (span : Span) :
    (cast source target).overload.take settings name span
      (undefinedPlaces (castCall operand target positions)) (castCall operand target positions) c =
        (.ok ((castOrNull settings.scales target operand).finish settings c.table), c) := by
  have hbuilt : (!c.allowNonDeterministic &&
      (castOrNull settings.scales target operand).isNonDeterministic) = false := by
    unfold castOrNull
    split
    · exact Bool.and_false _
    · exact hallowed
  unfold Overload.take
  rw [bind_of_ok (adjust_castCall htarget hkeeps hdefined name)]
  refine Overload.create_of_build ?_ hbuilt
  change ((cast source target).build span _ settings c).map some = _
  rw [castCall, build_cast source target _ _ hnull]
  rfl

/-- A call of `cast` resolves to a cast to the target, or to a null. -/
theorem resolve_castCall (settings : Settings) {source : ColumnType}
    (hcast : cast source target ∈ all) (hoperand : operand.type = source) (hne : source ≠ target)
    (hkeeps : ∀ target position, rewriteArgument c.table target operand position = .ok operand)
    (hfixes : operand.FixesConstants)
    (hallowed : (!c.allowNonDeterministic && operand.isNonDeterministic) = false) (span : Span)
    (positions : List Span) :
    catalog.resolve settings "cast" span (castCall operand target positions) c =
      (.ok ((castOrNull settings.scales target operand).finish settings c.table), c) := by
  obtain ⟨hsource, htarget, -⟩ := cast_mem_all_iff.mp hcast
  have hdefined : operand.isUndefined = false := by
    rw [Evaluator.isUndefined, hoperand]
    exact isUndefined_of_mem_castTypes source hsource
  have hnull : operand.type.isNull = false := by
    have hall : ∀ type ∈ castTypes, type.isNull = false := by decide
    rw [hoperand]
    exact hall source hsource
  obtain ⟨overloads, source', hname, -, -, hwinner⟩ :=
    exists_cast_wins hcast hoperand hfixes c.table c.inWindow positions
  rw [Catalog.resolve_of_elision hname rfl (elision_castCall (hoperand ▸ hne) hdefined),
    Catalog.resolveRanked_apply, isCastCall_castCall]
  simp only [snd_scan (fixesConstants_castCall hfixes target positions), hwinner]
  exact take_castCall settings source' htarget (hkeeps _) hdefined hnull hallowed "cast" span

/-! ### The values of a cast -/

theorem fixesConstants_castOrNull (h : operand.FixesConstants) (scales : TextScales)
    (target : ColumnType) : (castOrNull scales target operand).FixesConstants := by
  unfold castOrNull
  split
  · exact fun _ => by simp [nullOf, Plain]
  · exact PlainWhere.cast marks_constant h scales target

theorem memoize_castOrNull (scales : TextScales) (target : ColumnType) (operand : Evaluator) :
    (castOrNull scales target operand).traits.memoize = false := by
  unfold castOrNull
  split <;> rfl

theorem accumulates_castOrNull (scales : TextScales) (target : ColumnType) (operand : Evaluator) :
    (castOrNull scales target operand).accumulates = false := by
  unfold castOrNull
  split <;> rfl

theorem type_castOrNull (scales : TextScales) (target : ColumnType) (operand : Evaluator) :
    (castOrNull scales target operand).type = target := by
  unfold castOrNull
  split <;> rfl

theorem isNonDeterministic_castOrNull (scales : TextScales) (target : ColumnType)
    (operand : Evaluator) :
    (castOrNull scales target operand).isNonDeterministic = operand.isNonDeterministic := by
  unfold castOrNull
  split
  · rename_i hnull
    cases operand <;> first | rfl | cases hnull
  · rfl

/-- A cast has the operand's values, cast, also where it is seen that these are null. -/
theorem maps_castOrNull (b : BindTable) (scales : TextScales) (target : ColumnType)
    (operand : Evaluator) :
    Maps b (Value.cast scales target.tag) operand (castOrNull scales target operand) := by
  unfold castOrNull
  split
  · rename_i hnull
    cases operand
    case constant type v =>
      intro rows
      have hvalue : v.cast scales target.tag = .null := if_pos hnull
      have hself := maps_constant b type v (.constant type v) rows
      rw [nullOf, maps_constant b target .null (.constant type v) rows]
      refine List.map_congr_left fun w hw => ?_
      rw [hself] at hw
      obtain ⟨_, -, rfl⟩ := List.mem_map.mp hw
      exact hvalue.symm
    all_goals cases hnull
  · exact maps_cast b scales target operand

end Builtin

end SqlResolution
