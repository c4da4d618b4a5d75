import SqlResolution.Proofs.Builtin.Registration
import SqlResolution.Proofs.Evaluator.Concatenation
import SqlResolution.Proofs.Overload.Nulls
import SqlResolution.Proofs.Walk.Determinacy

/-!
# Calls of `concat`

A call of `concat` takes any arguments, of which those without a type become texts. Its text on a
row is the pieces of the arguments' values, one after another. So a concatenation of two
concatenations is that of all their arguments. A piece is empty for a null and for an empty text, but
also for a value of a kind that has no text as an argument, which is lost.
-/
namespace SqlResolution

open Evaluator Steps

/-- Evaluators of which those without a type become texts, one after another. -/
inductive TypesTexts : Context → List Evaluator → Context → List Evaluator → Prop
  | nil (c : Context) : TypesTexts c [] c []
  | typed {c c' : Context} {e : Evaluator} {es es' : List Evaluator}
      (defined : e.isUndefined = false) (rest : TypesTexts c es c' es') :
      TypesTexts c (e :: es) c' (e :: es')
  | untyped {c c' : Context} {e e' : Evaluator} {b : BindTable} {es es' : List Evaluator}
      (undefined : e.isUndefined = true) (assigns : e.assignType c.table .string = .ok (e', b))
      (rest : TypesTexts (c.withTable b) es c' es') : TypesTexts c (e :: es) c' (e' :: es')

namespace TypesTexts

variable {c c' c'' : Context} {e : Evaluator} {es es' fs fs' : List Evaluator}

theorem cons_iff_of_defined (h : e.isUndefined = false) :
    TypesTexts c (e :: es) c' fs ↔ ∃ es', TypesTexts c es c' es' ∧ fs = e :: es' := by
  constructor
  · intro htypes
    cases htypes with
    | typed _ rest => exact ⟨_, rest, rfl⟩
    | untyped undefined _ _ =>
      rw [h] at undefined
      cases undefined
  · rintro ⟨es', hrest, rfl⟩
    exact .typed h hrest

theorem cons_iff_of_undefined (h : e.isUndefined = true) :
    TypesTexts c (e :: es) c' fs ↔ ∃ e' b es', e.assignType c.table .string = .ok (e', b) ∧
      TypesTexts (c.withTable b) es c' es' ∧ fs = e' :: es' := by
  constructor
  · intro htypes
    cases htypes with
    | typed defined _ =>
      rw [h] at defined
      cases defined
    | untyped _ assigns rest => exact ⟨_, _, _, assigns, rest, rfl⟩
  · rintro ⟨e', b, es', hassigns, hrest, rfl⟩
    exact .untyped h hassigns hrest

theorem of_defined (h : ∀ e ∈ es, e.isUndefined = false) (c : Context) : TypesTexts c es c es := by
  induction es with
  | nil => exact .nil c
  | cons e es ih =>
    obtain ⟨hhead, htail⟩ := List.forall_mem_cons.mp h
    exact .typed hhead (ih htail)

/-- What comes after is typed in the context that is left. -/
theorem append (h : TypesTexts c es c' es') (hrest : TypesTexts c' fs c'' fs') :
    TypesTexts c (es ++ fs) c'' (es' ++ fs') := by
  induction h with
  | nil => exact hrest
  | typed defined _ ih => exact .typed defined (ih hrest)
  | untyped undefined assigns _ ih => exact .untyped undefined assigns (ih hrest)

theorem evalRowsAll_eq (h : TypesTexts c es c' es') (b : BindTable) (rows : List Row) :
    evalRowsAll b rows es' = evalRowsAll b rows es := by
  induction h with
  | nil => rfl
  | typed _ _ ih => rw [evalRowsAll_cons, evalRowsAll_cons, ih]
  | untyped _ assigns _ ih =>
    rw [evalRowsAll_cons, evalRowsAll_cons, ih, maps_assignType b assigns rows, List.map_id]

theorem yieldsOne (h : TypesTexts c es c' es') (hes : ∀ e ∈ es, e.YieldsOne) :
    ∀ e ∈ es', e.YieldsOne := by
  induction h with
  | nil => exact hes
  | typed _ _ ih =>
    obtain ⟨hhead, htail⟩ := List.forall_mem_cons.mp hes
    exact List.forall_mem_cons.mpr ⟨hhead, ih htail⟩
  | untyped _ assigns _ ih =>
    obtain ⟨-, htail⟩ := List.forall_mem_cons.mp hes
    obtain ⟨-, hvariable, -, -⟩ := assignType_spec assigns
    exact List.forall_mem_cons.mpr ⟨yieldsOne_of_variable hvariable, ih htail⟩

end TypesTexts

/-- The places of the evaluators without a type, of which the first is at place `i`. -/
def untypedFrom : Nat → List Evaluator → List Nat
  | _, [] => []
  | i, e :: es => if e.isUndefined then i :: untypedFrom (i + 1) es else untypedFrom (i + 1) es

theorem filter_range'_untyped (i : Nat) (es : List Evaluator) :
    (List.range' i es.length).filter (fun k => (es[k - i]?).any (·.isUndefined)) =
      untypedFrom i es := by
  induction es generalizing i with
  | nil => rfl
  | cons e es ih =>
    have hrest : (List.range' (i + 1) es.length).filter
        (fun k => ((e :: es)[k - i]?).any (·.isUndefined)) = untypedFrom (i + 1) es := by
      rw [← ih]
      refine List.filter_congr fun k hk => ?_
      have hlt := (List.mem_range'_1.mp hk).1
      rw [show k - i = k - (i + 1) + 1 by omega, List.getElem?_cons_succ]
    rw [List.length_cons, List.range'_succ, List.filter_cons, hrest, Nat.sub_self,
      List.getElem?_cons_zero, Option.any_some]
    rfl

theorem undefinedPlaces_eq (args : Args) :
    undefinedPlaces args = untypedFrom 0 args.evaluators := by
  rw [← filter_range'_untyped, ← List.range_eq_range']
  rfl

/-- The argument between some and others is given a type. -/
theorem assignArgument_between (before es : List Evaluator) (e : Evaluator) (positions : List Span)
    (type : ColumnType) (c : Context) :
    assignArgument ⟨before ++ e :: es, positions⟩ before.length type c =
      match e.assignType c.table type with
      | .ok (e', b) => (.ok ⟨before ++ e' :: es, positions⟩, c.withTable b)
      | .error error => (.error error, c) := by
  have hget : (⟨before ++ e :: es, positions⟩ : Args).get? before.length = some e := by
    simp [Args.get?]
  rw [assignArgument_apply, hget]
  dsimp only
  cases e.assignType c.table type with
  | error error => rfl
  | ok given => simp [Args.set]

namespace Builtin

theorem overloads?_concat : catalog.overloads? "concat" = some [concat.overload] :=
  overloads?_of_filter (List.cons_ne_nil concat []) (by decide +kernel)

/-- A concatenation gives each place without a type a text. -/
theorem assignTypes_concat_iff {name : String} {before es : List Evaluator} {positions : List Span}
    {args' : Args} {c c' : Context} :
    concat.overload.assignTypes name (untypedFrom before.length es) ⟨before ++ es, positions⟩ c =
        (.ok args', c') ↔
      ∃ es', TypesTexts c es c' es' ∧ args' = ⟨before ++ es', positions⟩ := by
  induction es generalizing before c with
  | nil =>
    constructor
    · intro h
      cases h
      exact ⟨[], .nil _, rfl⟩
    · rintro ⟨_, ⟨⟩, rfl⟩
      rfl
  | cons e es ih =>
    -- The rest is typed behind what the first has become.
    have hrest : ∀ r c₁, concat.overload.assignTypes name (untypedFrom (before.length + 1) es)
        ⟨before ++ r :: es, positions⟩ c₁ = (.ok args', c') ↔
          ∃ es', TypesTexts c₁ es c' es' ∧ args' = ⟨before ++ r :: es', positions⟩ := by
      intro r c₁
      simpa using @ih (before ++ [r]) c₁
    cases hundefined : e.isUndefined with
    | false =>
      rw [untypedFrom, hundefined, if_neg Bool.false_ne_true, hrest]
      simp only [TypesTexts.cons_iff_of_defined hundefined]
      constructor
      · rintro ⟨es', htypes, rfl⟩
        exact ⟨_, ⟨es', htypes, rfl⟩, rfl⟩
      · rintro ⟨_, ⟨es', htypes, rfl⟩, rfl⟩
        exact ⟨es', htypes, rfl⟩
    | true =>
      have htype : (liftM (concat.overload.variableType name before.length
          ⟨before ++ e :: es, positions⟩) : Resolution ColumnType) c = (.ok .string, c) := rfl
      rw [untypedFrom, hundefined, if_pos rfl, Overload.assignTypes, bind_of_ok htype, bind_apply,
        assignArgument_between]
      simp only [TypesTexts.cons_iff_of_undefined hundefined]
      rcases e.assignType c.table .string with error | ⟨e', b⟩
      · constructor
        · rintro ⟨⟩
        · rintro ⟨_, ⟨_, _, _, ⟨⟩, -⟩, -⟩
      · dsimp only
        rw [hrest]
        constructor
        · rintro ⟨es', htypes, rfl⟩
          exact ⟨_, ⟨e', b, es', rfl, htypes, rfl⟩, rfl⟩
        · rintro ⟨_, ⟨_, _, es', hgiven, htypes, rfl⟩, rfl⟩
          cases hgiven
          exact ⟨es', htypes, rfl⟩

/-- A concatenation prepares its arguments by typing them. -/
theorem adjust_concat_iff {name : String} {args args' : Args} {c c' : Context} :
    concat.overload.adjust name (undefinedPlaces args) args c = (.ok args', c') ↔
      ∃ es, TypesTexts c args.evaluators c' es ∧ args' = ⟨es, args.positions⟩ := by
  have htypes : concat.overload.assignTypes name (untypedFrom 0 args.evaluators) args c =
      (.ok args', c') ↔
        ∃ es, TypesTexts c args.evaluators c' es ∧ args' = ⟨es, args.positions⟩ :=
    @assignTypes_concat_iff name [] args.evaluators args.positions args' c c'
  have hadjust : concat.overload.adjust name (undefinedPlaces args) args c =
      concat.overload.assignTypes name (undefinedPlaces args) args c := by
    have hvariable : firstVariableInTail? concat.overload.signature args = none := rfl
    unfold Overload.adjust
    rw [hvariable]
    dsimp only
    rw [bind_apply]
    rcases concat.overload.assignTypes name (undefinedPlaces args) args c with ⟨_ | typed, c₁⟩
    · rfl
    · rfl
  rw [hadjust, undefinedPlaces_eq]
  exact htypes

variable {settings : Settings} {span : Span} {args : Args} {c after : Context} {e : Evaluator}

/-- The only overload of its name takes any arguments, and none is matched with a parameter. -/
theorem scan_concat (table : BindTable) (isCast inWindow : Bool) (args : Args) :
    ∃ t, scan table isCast inWindow 0 [concat.overload] .start args = (t, args) ∧
      t.winner.bind ([concat.overload][·]?) = some concat.overload := by
  cases inWindow
  · exact ⟨_, rfl, rfl⟩
  · exact ⟨_, rfl, rfl⟩

theorem create_concat_iff {name : String} :
    concat.overload.create settings name span args c = (.ok e, after) ↔
      after = c ∧ (!c.allowNonDeterministic && args.evaluators.any isNonDeterministic) = false ∧
        e = (Evaluator.concat settings.scales args.evaluators).finish settings c.table := by
  have hbuild : concat.overload.factory.build span args settings c =
      .ok (some (.concat settings.scales args.evaluators)) := rfl
  rw [← isNonDeterministic_concat settings.scales]
  constructor
  · intro h
    obtain ⟨rfl, built, hbuilt, hallowed, rfl⟩ := Overload.create_ok h
    rw [hbuild] at hbuilt
    cases hbuilt
    exact ⟨rfl, hallowed, rfl⟩
  · rintro ⟨rfl, hallowed, rfl⟩
    exact Overload.create_of_build hbuild hallowed

/-- What a call of `concat` comes to. -/
theorem resolve_concat_iff :
    catalog.resolve settings "concat" span args c = (.ok e, after) ↔
      ∃ es, TypesTexts c args.evaluators after es ∧
        (!after.allowNonDeterministic && es.any isNonDeterministic) = false ∧
          e = (Evaluator.concat settings.scales es).finish settings after.table := by
  have helision : elision "concat" args c = (.ok (false, args), c) := by
    have hcast : isCastCall "concat" args = false := rfl
    rw [elision, hcast]
    rfl
  rw [Catalog.resolve_eq overloads?_concat, bind_of_ok helision]
  dsimp only
  rw [if_neg Bool.false_ne_true]
  cases hempty : args.isEmpty with
  | true =>
    have hnone : args.evaluators = [] := List.isEmpty_iff.mp hempty
    have hanswers : [concat.overload].find? (Overload.answersEmptyCall
        ([concat.overload].length == 1) c.inWindow) = some concat.overload := by
      cases c.inWindow <;> rfl
    rw [if_pos rfl, Catalog.resolveEmpty_apply, hanswers, hnone]
    dsimp only
    rw [create_concat_iff]
    constructor
    · rintro ⟨rfl, hallowed, he⟩
      exact ⟨[], .nil _, hallowed, he⟩
    · rintro ⟨_, ⟨⟩, hallowed, he⟩
      exact ⟨rfl, hallowed, he⟩
  | false =>
    obtain ⟨t, hscan, hwins⟩ := scan_concat c.table (isCastCall "concat" args) c.inWindow args
    rw [if_neg Bool.false_ne_true, Catalog.resolveRanked_apply, hscan]
    dsimp only
    rw [hwins]
    constructor
    · intro h
      obtain ⟨args', c', hadjust, hcreate⟩ := exists_of_bind_ok h
      obtain ⟨es, htypes, rfl⟩ := adjust_concat_iff.mp hadjust
      obtain ⟨rfl, hallowed, he⟩ := create_concat_iff.mp hcreate
      exact ⟨es, htypes, hallowed, he⟩
    · rintro ⟨es, htypes, hallowed, he⟩
      dsimp only [Overload.take]
      rw [bind_of_ok (adjust_concat_iff.mpr ⟨es, htypes, rfl⟩)]
      exact create_concat_iff.mpr ⟨rfl, hallowed, he⟩

/-- The values of a call of `concat` are the concatenations of its arguments' values. -/
theorem concatenates_of_resolve (hargs : ∀ arg ∈ args.evaluators, arg.YieldsOne)
    (h : catalog.resolve settings "concat" span args c = (.ok e, after)) :
    e.Concatenates settings.scales args.evaluators ∧ e.YieldsOne ∧ e.type = .string ∧
      (!after.allowNonDeterministic && e.isNonDeterministic) = false := by
  obtain ⟨es, htypes, hallowed, rfl⟩ := resolve_concat_iff.mp h
  obtain ⟨hvalues, hone⟩ := concatenates_finish (htypes.yieldsOne hargs) settings after.table
  refine ⟨fun b rows => ?_, hone, type_finish .., ?_⟩
  · rw [hvalues, htypes.evalRowsAll_eq]
  · cases hallows : after.allowNonDeterministic with
    | true => rfl
    | false =>
      rw [hallows, ← isNonDeterministic_concat settings.scales] at hallowed
      exact Bool.eq_false_of_not_eq_true fun hrandom => by
        simp [isNonDeterministic_finish hrandom] at hallowed

/-- The value of a call of `concat` on each row is the pieces of its arguments' values, one after
another. A piece is empty where the value is null or an empty text, or of a kind that has no text as
an argument: it is then lost. A call with two such calls as arguments succeeds, and so does one with
the arguments of both, and their values on the rows are the same. -/
theorem pieces_of_resolve {xs ys : Args} {ex ey : Evaluator} {span span' : Span}
    {c c₁ c₂ : Context} (hxs : ∀ e ∈ xs.evaluators, e.YieldsOne)
    (hys : ∀ e ∈ ys.evaluators, e.YieldsOne)
    (hx : catalog.resolve settings "concat" span xs c = (.ok ex, c₁))
    (hy : catalog.resolve settings "concat" span' ys c₁ = (.ok ey, c₂)) (outer : Span) :
    (∀ b rows, (ex.evalRows b rows).1 = (evalRowsAll b rows xs.evaluators).map fun vs =>
        .str (String.join (vs.map (Value.piece settings.scales)))) ∧
      (∀ v : Value, v.piece settings.scales = "" ↔
        v.isNull = true ∨ v = .str "" ∨ v.lacksText = true) ∧
      ∃ nested flat,
        catalog.resolve settings "concat" outer ⟨[ex, ey], [span, span']⟩ c₂ = (.ok nested, c₂) ∧
        catalog.resolve settings "concat" outer
            ⟨xs.evaluators ++ ys.evaluators, xs.positions ++ ys.positions⟩ c = (.ok flat, c₂) ∧
        ∀ b rows, (nested.evalRows b rows).1 = (flat.evalRows b rows).1 := by
  obtain ⟨hvaluesx, honex, htypex, hallowedx⟩ := concatenates_of_resolve hxs hx
  obtain ⟨hvaluesy, honey, htypey, hallowedy⟩ := concatenates_of_resolve hys hy
  have hallows := Catalog.allowNonDeterministic_of_resolve hy rfl
  obtain ⟨es, htypesx, hrandomx, -⟩ := resolve_concat_iff.mp hx
  obtain ⟨fs, htypesy, hrandomy, -⟩ := resolve_concat_iff.mp hy
  rw [← hallows] at hallowedx hrandomx
  have hpair : ∀ e ∈ [ex, ey], e.YieldsOne := by simp [honex, honey]
  have hboth : ∀ e ∈ xs.evaluators ++ ys.evaluators, e.YieldsOne :=
    List.forall_mem_append.mpr ⟨hxs, hys⟩
  obtain ⟨nested, hnested⟩ : ∃ nested, catalog.resolve settings "concat" outer
      ⟨[ex, ey], [span, span']⟩ c₂ = (.ok nested, c₂) := by
    refine ⟨_, resolve_concat_iff.mpr ⟨_, .of_defined ?_ c₂, ?_, rfl⟩⟩
    · simp [isUndefined, htypex, htypey, ColumnType.isUndefined]
    · simp only [List.any_cons, List.any_nil, Bool.or_false, Bool.and_or_distrib_left, hallowedx,
        hallowedy]
  obtain ⟨flat, hflat⟩ : ∃ flat, catalog.resolve settings "concat" outer
      ⟨xs.evaluators ++ ys.evaluators, xs.positions ++ ys.positions⟩ c = (.ok flat, c₂) := by
    refine ⟨_, resolve_concat_iff.mpr ⟨_, htypesx.append htypesy, ?_, rfl⟩⟩
    simp only [List.any_append, Bool.and_or_distrib_left, hrandomx, hrandomy, Bool.or_false]
  obtain ⟨hvaluesn, -⟩ := concatenates_of_resolve hpair hnested
  obtain ⟨hvaluesf, -⟩ := concatenates_of_resolve hboth hflat
  refine ⟨hvaluesx, fun v => Value.piece_eq_empty_iff, nested, flat, hnested, hflat, ?_⟩
  intro b rows
  rw [hvaluesx.append hvaluesy hvaluesn, hvaluesf]

/-- An address beside a variable without a type. -/
def addressAndVariable : Args :=
  ⟨[.column 0 (.of .ipv4) "ip", .slotLink 0 .undefined], [⟨7, 2⟩, ⟨11, 2⟩]⟩

/-- A text beside a null. -/
def textAndNull : Args := ⟨[.ofString "a", .untypedNull], [⟨22, 3⟩, ⟨27, 4⟩]⟩

/-- A row of an address. -/
def addressRow : Row := ⟨-1, [.ipv4 16909060]⟩

/-- Of an address and a variable that is not set nothing is left, in a call of their own and in one
that adds a text and a null. -/
theorem pieces_of_resolve_address :
    (∀ e ∈ addressAndVariable.evaluators, e.YieldsOne) ∧
      (∀ e ∈ textAndNull.evaluators, e.YieldsOne) ∧
      ∃ ex ey c₁ c₂ nested flat,
        catalog.resolve .default "concat" ⟨0, 6⟩ addressAndVariable (.fresh 0) = (.ok ex, c₁) ∧
        catalog.resolve .default "concat" ⟨15, 6⟩ textAndNull c₁ = (.ok ey, c₂) ∧
        catalog.resolve .default "concat" ⟨0, 0⟩ ⟨[ex, ey], [⟨0, 6⟩, ⟨15, 6⟩]⟩ c₂ =
          (.ok nested, c₂) ∧
        catalog.resolve .default "concat" ⟨0, 0⟩
            ⟨addressAndVariable.evaluators ++ textAndNull.evaluators,
              addressAndVariable.positions ++ textAndNull.positions⟩ (.fresh 0) = (.ok flat, c₂) ∧
        (ex.evalRows .empty [addressRow]).1 = [.str ""] ∧
        (nested.evalRows .empty [addressRow]).1 = (flat.evalRows .empty [addressRow]).1 := by
  have hxs : ∀ e ∈ addressAndVariable.evaluators, e.YieldsOne :=
    List.forall_mem_cons.mpr ⟨yieldsOne_of_variable rfl,
      List.forall_mem_singleton.mpr (yieldsOne_of_variable rfl)⟩
  have hys : ∀ e ∈ textAndNull.evaluators, e.YieldsOne :=
    List.forall_mem_cons.mpr ⟨yieldsOne_constant _ _,
      List.forall_mem_singleton.mpr (yieldsOne_constant _ _)⟩
  obtain ⟨ex, c₁, hx⟩ : ∃ ex c₁, catalog.resolve .default "concat" ⟨0, 6⟩ addressAndVariable
      (.fresh 0) = (.ok ex, c₁) :=
    ⟨_, _, resolve_concat_iff.mpr ⟨_, .typed rfl (.untyped rfl rfl (.nil _)), rfl, rfl⟩⟩
  obtain ⟨ey, c₂, hy⟩ : ∃ ey c₂, catalog.resolve .default "concat" ⟨15, 6⟩ textAndNull c₁ =
      (.ok ey, c₂) :=
    ⟨_, _, resolve_concat_iff.mpr ⟨_, .typed rfl (.typed rfl (.nil _)), Bool.and_false _, rfl⟩⟩
  obtain ⟨hvalues, -, nested, flat, hnested, hflat, hsame⟩ :=
    pieces_of_resolve hxs hys hx hy ⟨0, 0⟩
  exact ⟨hxs, hys, ex, ey, c₁, c₂, nested, flat, hx, hy, hnested, hflat, hvalues .empty _,
    hsame .empty _⟩

/-- An address adds nothing, though it is neither null nor an empty text. -/
theorem not_pieces_of_address :
    ¬∀ args e after, catalog.resolve .default "concat" ⟨0, 6⟩ args (.fresh 0) = (.ok e, after) →
      ∀ table row, ∃ texts : List String,
        List.Forall₂ (fun arg text => text = "" →
          (value table row arg).isNull = true ∨ value table row arg = .str "")
            args.evaluators texts ∧
          e.value table row = .str (String.join texts) := by
  intro h
  obtain ⟨e, after, hresolve⟩ : ∃ e after, catalog.resolve .default "concat" ⟨0, 6⟩
      ⟨[.column 0 (.of .ipv4) "ip"], [⟨7, 2⟩]⟩ (.fresh 0) = (.ok e, after) :=
    ⟨_, _, resolve_concat_iff.mpr ⟨_, .typed rfl (.nil _), rfl, rfl⟩⟩
  obtain ⟨hvalues, -⟩ := concatenates_of_resolve
    (List.forall_mem_singleton.mpr (yieldsOne_of_variable rfl)) hresolve
  have hempty : e.value .empty addressRow = .str "" :=
    value_eq_of_evalRows (hvalues .empty [addressRow])
  obtain ⟨texts, htexts, hvalue⟩ := h _ _ _ hresolve .empty addressRow
  cases htexts with
  | cons hhead hrest =>
    cases hrest
    rw [hempty] at hvalue
    obtain hnull | htext := hhead (by simpa using (Value.str.inj hvalue).symm)
    · cases hnull
    · cases htext

end Builtin
end SqlResolution
