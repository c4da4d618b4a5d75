import SqlResolution.Proofs.Overload.Course
import SqlResolution.Proofs.Overload.Retyping

/-!
# Calls that are repeated

A call is repeated with the types that its variables have in the end. It may go to another overload,
since a typed variable is matched by its type. Where it goes to the same one, it does the same: it
prepares the same arguments, builds the same evaluator, and leaves the bind table as it is. A call
that types no variable goes to the same overload.
-/
namespace SqlResolution

open Steps

/-- The factory makes up no links. -/
def Overload.MakesUpNoLinks (settings : Settings) (o : Overload) : Prop :=
  ∀ span args context e, o.factory.build span args settings context = .ok (some e) →
    e.linked? = none ∨ e ∈ args.evaluators

/-- The factory reads of the bind table the values of variables alone. -/
def Overload.ReadsValues (settings : Settings) (o : Overload) : Prop :=
  ∀ span args (context : Context) (b : BindTable), context.table.SameValues b →
    o.factory.build span args settings (context.withTable b) =
      o.factory.build span args settings context

namespace Catalog

/-- The overload, by its place, that a call with prepared arguments goes to. -/
def choiceAmong? (overloads : List Overload) (isCast : Bool) (prepared : Args) (context : Context) :
    Option Nat :=
  if prepared.isEmpty then
    overloads.findIdx? (Overload.answersEmptyCall (overloads.length == 1) context.inWindow)
  else (scan context.table isCast context.inWindow 0 overloads .start prepared).1.winner

/-- The overload, by its place, that a call goes to, where there is one. A cast that is its own
operand goes to no overload. -/
def choice? (c : Catalog) (name : String) (args : Args) (context : Context) :
    Option (Option Nat) :=
  (c.overloads? name).bind fun overloads =>
    match elision name args context with
    | (.ok (true, _), _) => some none
    | (.ok (false, prepared), context) =>
      (choiceAmong? overloads (isCastCall name args) prepared context).map some
    | (.error _, _) => none

/-- Factories read of the bind table the values of variables alone. -/
def ReadsValues (c : Catalog) (settings : Settings) : Prop :=
  ∀ name overloads, c.overloads? name = some overloads → ∀ o ∈ overloads, o.ReadsValues settings

end Catalog

section Elision

variable {b : BindTable} {name : String} {args prepared : Args} {c c' : Context} {isElided : Bool}

theorem castVariableType?_of_isUndefined {type : ColumnType} (h : type.isUndefined = true) :
    castVariableType? type = none := by
  unfold castVariableType?
  rw [eq_of_beq h]

/-- Whether an operand is of the type that it is cast to. -/
def Args.isIdleCast (args : Args) : Bool :=
  (args.get? 0).any fun operand => (args.get? 1).any fun target => operand.type == target.type

/-- A cast types no operand that has a type, or that its target gives none. -/
theorem elideCast_of_settled (c : Context)
    (h : ∀ operand target, args.get? 0 = some operand → args.get? 1 = some target →
      operand.isUndefined = true → operand.type ≠ target.type →
        castVariableType? target.type = none) :
    elideCast args c = (.ok (args.isIdleCast, args), c) := by
  rw [elideCast_apply, Args.isIdleCast]
  cases hoperand : args.get? 0 with
  | none => rfl
  | some operand =>
    cases htarget : args.get? 1 with
    | none => rfl
    | some target =>
      dsimp only [Option.any_some]
      cases hsame : operand.type == target.type with
      | true => rw [if_pos rfl]
      | false =>
        rw [if_neg Bool.false_ne_true]
        split
        · rename_i hundefined
          rw [h operand target hoperand htarget hundefined (by simpa using hsame)]
        · rfl

@[simp] theorem isCastCall_typedBy (b : BindTable) (name : String) (args : Args) :
    isCastCall name (args.typedBy b) = isCastCall name args := by
  have htarget : ((args.typedBy b).get? 1).any Evaluator.isConstant =
      (args.get? 1).any Evaluator.isConstant := by
    rw [Args.get?_typedBy]
    cases args.get? 1 with
    | none => rfl
    | some e => exact e.isConstant_typedBy b
  rw [isCastCall, isCastCall, Args.size_typedBy, htarget]

/-- With the types of a table a cast types nothing more, where its target would type no operand
that is still untyped. -/
theorem elideCast_args_typedBy {operand target : Evaluator} (hoperand : args.get? 0 = some operand)
    (htarget : args.get? 1 = some target) (hkept : target.typedBy b = target)
    (hnone : (operand.typedBy b).isUndefined = true → castVariableType? target.type = none)
    (c : Context) :
    ∃ isElided, elideCast (args.typedBy b) c = (.ok (isElided, args.typedBy b), c) := by
  refine ⟨_, elideCast_of_settled c fun operand' target' hoperand' htarget' hundefined _ => ?_⟩
  rw [Args.get?_typedBy, hoperand, Option.map_some] at hoperand'
  rw [Args.get?_typedBy, htarget, Option.map_some, hkept] at htarget'
  cases hoperand'
  cases htarget'
  exact hnone hundefined

/-- The operand of a cast may be given its type before the overloads are tried. It is then as the
table in the end types it, and a cast of it types nothing more. -/
theorem elideCast_typedBy (hbinds : c.binds.isSome = true)
    (hagree : ∀ e ∈ args.evaluators, e.AgreesWith b)
    (hconstant : (args.get? 1).any Evaluator.isConstant = true)
    (h : elideCast args c = (.ok (isElided, prepared), c')) (hsettles : c'.table.Settles b) :
    (prepared = args ∨ ∃ e, args.get? 0 = some e ∧ prepared = args.set 0 (e.typedBy b)) ∧
      ∃ isElided, elideCast (args.typedBy b) (c.withTable b) =
        (.ok (isElided, args.typedBy b), c.withTable b) := by
  rw [elideCast_apply] at h
  cases hoperand : args.get? 0 with
  | none =>
    rw [hoperand] at h
    cases h
    refine ⟨.inl rfl, _, elideCast_of_settled _ fun operand _ hoperand' => ?_⟩
    rw [Args.get?_typedBy, hoperand] at hoperand'
    cases hoperand'
  | some operand =>
    obtain ⟨target, htarget, hconstant⟩ := Option.any_eq_true _ _ |>.mp hconstant
    have hkept : target.typedBy b = target :=
      Evaluator.typedBy_of_linked? (Evaluator.linked?_of_isConstant hconstant)
    have hsettled := fun hnone =>
      elideCast_args_typedBy hoperand htarget hkept hnone (c.withTable b)
    have hdefined : (operand.typedBy b).isUndefined = true → operand.isUndefined = true :=
      (hagree operand (List.mem_of_getElem? hoperand)).isUndefined_of_typedBy
    rw [hoperand, htarget] at h
    dsimp only at h
    split at h
    · rename_i hsame
      cases h
      refine ⟨.inl rfl, hsettled fun hundefined => castVariableType?_of_isUndefined ?_⟩
      rw [← eq_of_beq hsame]
      exact hdefined hundefined
    · split at h
      · rename_i hundefined
        split at h
        · rename_i hnone
          cases h
          exact ⟨.inl rfl, hsettled fun _ => hnone⟩
        · split at h
          · rename_i hassign
            cases h
            obtain ⟨rfl, htyped⟩ :=
              assignArgument_typedBy hbinds hagree hsettles hoperand hundefined hassign
            refine ⟨.inr ⟨operand, rfl, rfl⟩, hsettled fun huntyped => ?_⟩
            rw [htyped] at huntyped
            cases huntyped
          · cases h
      · rename_i hnot
        cases h
        exact ⟨.inl rfl, hsettled fun hundefined => absurd (hdefined hundefined) hnot⟩

section

variable (h : prepared = args ∨ ∃ e, args.get? 0 = some e ∧ prepared = args.set 0 (e.typedBy b))
include h

/-- Arguments of which one may be typed already are the same with their types in the end. -/
theorem Args.typedBy_of_prepared : prepared.typedBy b = args.typedBy b := by
  obtain rfl | ⟨e, hget, rfl⟩ := h
  · rfl
  · exact Args.typedBy_set hget

theorem Args.forall_of_prepared {P : Evaluator → Prop} (htyped : ∀ e, P e → P (e.typedBy b))
    (hall : ∀ e ∈ args.evaluators, P e) : ∀ e ∈ prepared.evaluators, P e := by
  obtain rfl | ⟨e, hget, rfl⟩ := h
  · exact hall
  · intro f hf
    obtain hf | rfl := List.mem_or_eq_of_mem_set hf
    · exact hall f hf
    · exact htyped e (hall e (List.mem_of_getElem? hget))

end

theorem elision_typedBy (hbinds : c.binds.isSome = true)
    (hagree : ∀ e ∈ args.evaluators, e.AgreesWith b)
    (h : elision name args c = (.ok (isElided, prepared), c')) (hsettles : c'.table.Settles b) :
    (prepared = args ∨ ∃ e, args.get? 0 = some e ∧ prepared = args.set 0 (e.typedBy b)) ∧
      ∃ isElided, elision name (args.typedBy b) (c.withTable b) =
        (.ok (isElided, args.typedBy b), c.withTable b) := by
  unfold elision at h ⊢
  rw [isCastCall_typedBy]
  by_cases hcast : isCastCall name args = true
  · rw [if_pos hcast] at h ⊢
    have hconstant : (args.get? 1).any Evaluator.isConstant = true := by
      rw [isCastCall, Bool.and_eq_true] at hcast
      exact hcast.2
    exact elideCast_typedBy hbinds hagree hconstant h hsettles
  · rw [if_neg hcast] at h ⊢
    cases h
    exact ⟨.inl rfl, false, rfl⟩

/-- A cast types nothing where each argument has its type. -/
theorem elision_of_isTypedBy (htyped : ∀ e ∈ args.evaluators, e.IsTypedBy b)
    (h : elision name args c = (.ok (isElided, prepared), c')) (context : Context) :
    elision name args context = (.ok (isElided, args), context) := by
  unfold elision at h ⊢
  by_cases hcast : isCastCall name args = true
  · rw [if_pos hcast] at h ⊢
    have hsettled : ∀ operand target, args.get? 0 = some operand → args.get? 1 = some target →
        operand.isUndefined = true → operand.type ≠ target.type →
          castVariableType? target.type = none := by
      intro operand target hoperand htarget hundefined hne
      cases htype : castVariableType? target.type with
      | none => rfl
      | some type =>
        rw [elideCast_apply, hoperand, htarget] at h
        dsimp only at h
        rw [if_neg (by simpa using hne), if_pos hundefined, htype] at h
        dsimp only at h
        rw [assignArgument_apply, hoperand] at h
        cases hassign : operand.assignType c.table type with
        | error error =>
          simp only [hassign] at h
          cases h
        | ok assigned =>
          obtain ⟨x, hlinked, -⟩ := Evaluator.assignType_ok hassign
          rw [(htyped operand (List.mem_of_getElem? hoperand)).linked?_of_isUndefined
            hundefined] at hlinked
          cases hlinked
    rw [elideCast_of_settled c hsettled] at h
    cases h
    exact elideCast_of_settled context hsettled
  · rw [if_neg hcast] at h ⊢
    cases h
    rfl

end Elision

namespace Overload

variable {o : Overload} {b : BindTable} {settings : Settings} {name : String} {span : Span}
  {args args' : Args} {c c' : Context} {e : Evaluator}

theorem settles_take {places : List Nat}
    (h : o.take settings name span places args c = (.ok e, c')) : c.table.Settles c'.table := by
  obtain ⟨adjusted, c₁, hadjust, hcreate⟩ := exists_of_bind_ok h
  obtain ⟨rfl, -⟩ := create_ok hcreate
  obtain ⟨typed, htypes, -⟩ := adjust_ok hadjust
  exact settles_assignTypes htypes

/-- A factory that reads values alone builds the same from the same arguments. -/
theorem create_typedBy (hreads : o.ReadsValues settings) (hbinds : c.binds.isSome = true)
    (hvalues : c.table.SameValues b)
    (h : o.create settings name span args c = (.ok e, c')) :
    o.create settings name span args (c.withTable b) = (.ok e, c'.withTable b) := by
  obtain ⟨rfl, built, hbuild, hallowed, rfl⟩ := create_ok h
  have hbuild' : o.factory.build span args settings (c'.withTable b) = .ok (some built) :=
    (hreads span args c' b hvalues).trans hbuild
  rw [create_of_build hbuild' hallowed, Context.table_withTable hbinds,
    Evaluator.finish_congr hvalues]

theorem firstVariableInTail?_of_adjust {places : List Nat}
    (h : o.adjust name places args c = (.ok args', c')) :
    firstVariableInTail? o.signature args = none := by
  cases htail : firstVariableInTail? o.signature args with
  | none => rfl
  | some i =>
    rw [adjust, htail] at h
    cases h

theorem firstVariableInTail?_typedBy (s : Signature) (b : BindTable) (args : Args) :
    firstVariableInTail? s (args.typedBy b) = firstVariableInTail? s args := by
  have hany : ∀ i, (((args.typedBy b).get? i).any fun e => !e.traits.isConstantOrRuntimeConstant) =
      (args.get? i).any fun e => !e.traits.isConstantOrRuntimeConstant := by
    intro i
    rw [Args.get?_typedBy]
    cases args.get? i with
    | none => rfl
    | some e => simp only [Option.map_some, Option.any_some, Evaluator.traits_typedBy]
  simp only [firstVariableInTail?, Args.size_typedBy, hany]

/-- Arguments without untyped ones are rewritten at once. -/
theorem adjust_of_typed (htail : firstVariableInTail? o.signature args = none)
    (hrewrite : rewriteAll c.table 0 o.signature.parameters args = .ok args') :
    o.adjust name [] args c = (.ok args', c) := by
  unfold adjust
  rw [htail]
  exact Prod.ext hrewrite rfl

theorem undefinedPlaces_eq_nil (h : ∀ e ∈ args.evaluators, e.isUndefined = false) :
    undefinedPlaces args = [] := by
  refine List.eq_nil_iff_forall_not_mem.mpr fun i hi => ?_
  obtain ⟨e, he, hundefined⟩ := mem_undefinedPlaces.mp hi
  rw [h e (List.mem_of_getElem? he)] at hundefined
  cases hundefined

/-- A call that an overload takes is taken by it once more, and comes to the same evaluator, whose
links have the types of the table. -/
theorem take_typedBy (hreads : o.ReadsValues settings)
    (hlinks : o.MakesUpNoLinks settings)
    (hbinds : c.binds.isSome = true) (hagree : ∀ e ∈ args.evaluators, e.AgreesWith b)
    (h : o.take settings name span (undefinedPlaces args) args c = (.ok e, c'))
    (hsettles : c'.table.Settles b) :
    e.IsTypedBy b ∧
      o.take settings name span (undefinedPlaces (args.typedBy b)) (args.typedBy b)
        (c.withTable b) = (.ok e, c'.withTable b) := by
  obtain ⟨adjusted, c₁, hadjust, hcreate⟩ := exists_of_bind_ok h
  obtain ⟨rfl, built, hbuild, -, rfl⟩ := create_ok hcreate
  obtain ⟨typed, htypes, hrewrite⟩ := adjust_ok hadjust
  obtain ⟨rfl, heach⟩ := assignTypes_undefinedPlaces hbinds hagree hsettles htypes
  have hframe := o.keeps_frame_assignTypes name (undefinedPlaces args) args c
  rw [htypes] at hframe
  have hbinds' : c'.binds.isSome = true := by rw [Context.isSome_binds_of_frame hframe, hbinds]
  have hadjusted : ∀ e ∈ adjusted.evaluators, e.IsTypedBy b := by
    have houtcome := outcome_rewriteAll (R := fun _ => SameEvaluator (Evaluator.IsTypedBy b))
      (fun _ => (maintained_isTypedBy b).uniform)
      (⟨rfl, trivial⟩ : SameContext (fun _ => True) c' c')
      ⟨rfl, aligned_same (fun e he => (heach e he).1) 0⟩ 0 o.signature.parameters
    rw [hrewrite] at houtcome
    cases houtcome with
    | ok related => exact (forall_mem_of_aligned_same related.evaluators).2
  constructor
  · refine Evaluator.IsTypedBy.finish ?_ settings c'.table
    obtain hnone | hmem := hlinks span adjusted c' built hbuild
    · exact .other hnone
    · exact hadjusted built hmem
  · rw [undefinedPlaces_eq_nil fun e he => (heach e he).2,
      Context.withTable_eq_of_frame hframe.symm b]
    have hagain : o.adjust name [] (args.typedBy b) (c'.withTable b) =
        (.ok adjusted, c'.withTable b) := by
      refine adjust_of_typed ?_ ?_
      · rw [firstVariableInTail?_typedBy]
        exact firstVariableInTail?_of_adjust hadjust
      · rw [Context.table_withTable hbinds', ← rewriteAll_congr hsettles.sameValues]
        exact hrewrite
    rw [take, bind_of_ok hagain]
    exact create_typedBy hreads hbinds' hsettles.sameValues hcreate

end Overload

namespace Catalog

variable {c : Catalog} {settings : Settings} {overloads : List Overload} {name : String}
  {span : Span} {args prepared : Args} {context after : Context} {e : Evaluator} {b : BindTable}

/-- A cast that is its own operand comes to the operand. -/
theorem eq_cons_of_elided
    (h : (match prepared.evaluators with
      | operand :: _ => return operand
      | [] => throw (.internal .castLostOperand) : Resolution Evaluator) context = (.ok e, after)) :
    after = context ∧ ∃ rest, prepared.evaluators = e :: rest := by
  cases hevaluators : prepared.evaluators with
  | nil =>
    rw [hevaluators] at h
    cases h
  | cons operand rest =>
    rw [hevaluators] at h
    cases h
    exact ⟨rfl, rest, rfl⟩

theorem choice?_of_elision {isElided : Bool} (hname : c.overloads? name = some overloads)
    (helision : elision name args context = (.ok (isElided, prepared), after)) :
    c.choice? name args context =
      if isElided then some none
      else (choiceAmong? overloads (isCastCall name args) prepared after).map some := by
  rw [choice?, hname, Option.bind_some, helision]
  cases isElided <;> rfl

/-- The overload that a call goes to is the one that creates what it comes to. A cast that goes to
none comes to its operand. -/
theorem exists_choice?_of_resolve
    (h : c.resolve settings name span args context = (.ok e, after)) :
    ∃ overloads, c.overloads? name = some overloads ∧
      ((c.choice? name args context = some none ∧ ∃ prepared,
          elision name args context = (.ok (true, prepared), after) ∧ prepared.get? 0 = some e) ∨
        ∃ i o adjusted before, c.choice? name args context = some (some i) ∧
          overloads[i]? = some o ∧
            o.create settings name span adjusted before = (.ok e, after)) := by
  cases course_of_resolve h with
  | elided found elides operand =>
    refine ⟨_, found, .inl ⟨?_, _, elides, operand⟩⟩
    rw [choice?_of_elision found elides, if_pos rfl]
  | empty found elides isEmpty answers creates =>
    rw [List.find?_eq_bind_findIdx?_getElem?] at answers
    obtain ⟨i, hi, ho⟩ := Option.bind_eq_some_iff.mp answers
    refine ⟨_, found, .inr ⟨i, _, .empty, after, ?_, ho, creates⟩⟩
    rw [choice?_of_elision found elides, if_neg Bool.false_ne_true, choiceAmong?, if_pos isEmpty,
      hi, Option.map_some]
  | ranked found elides isEmpty scanned wins _ creates =>
    obtain ⟨i, hi, ho⟩ := Option.bind_eq_some_iff.mp wins
    refine ⟨_, found, .inr ⟨i, _, _, after, ?_, ho, creates⟩⟩
    rw [choice?_of_elision found elides, if_neg Bool.false_ne_true, choiceAmong?, isEmpty,
      if_neg Bool.false_ne_true, scanned, hi, Option.map_some]

/-- What follows the preparation of a cast that may be its own operand settles the table further. -/
theorem settles_of_prepared {isElided isCast : Bool}
    (h : (if isElided then
        match prepared.evaluators with
        | operand :: _ => return operand
        | [] => throw (.internal .castLostOperand)
      else if prepared.isEmpty then c.resolveEmpty settings overloads name span
      else c.resolveRanked settings overloads name span isCast prepared) context =
        (.ok e, after)) :
    context.table.Settles after.table := by
  split at h
  · rw [(eq_cons_of_elided h).1]
    exact .refl _
  · split at h
    · rw [resolveEmpty_apply] at h
      split at h
      · rw [(Overload.create_ok h).1]
        exact .refl _
      · cases h
    · rw [resolveRanked_apply] at h
      dsimp only at h
      split at h
      · cases h
      · exact Overload.settles_take h

/-- A call whose arguments all have their types goes to the same overload after the table has
settled. -/
theorem choice?_typedBy (hbinds : context.binds.isSome = true)
    (htyped : ∀ e ∈ args.evaluators, e.IsTypedBy b)
    (h : c.resolve settings name span args context = (.ok e, after))
    (hvalues : context.table.SameValues b) :
    c.choice? name (args.typedBy b) (context.withTable b) = c.choice? name args context := by
  cases hname : c.overloads? name with
  | none => rw [choice?, choice?, hname, Option.bind_none, Option.bind_none]
  | some overloads =>
    rw [resolve_eq hname] at h
    obtain ⟨⟨isElided, prepared⟩, c₁, helision, -⟩ := exists_of_bind_ok h
    have hrepeat := elision_of_isTypedBy htyped helision
    rw [Args.typedBy_eq fun e he => (htyped e he).typedBy_eq, choice?_of_elision hname (hrepeat _),
      choice?_of_elision hname (hrepeat _), choiceAmong?, choiceAmong?,
      Context.table_withTable hbinds, scan_congr hvalues]
    rfl

section Prepared

variable (hlinks : ∀ o ∈ overloads, o.MakesUpNoLinks settings)
  (hreads : ∀ o ∈ overloads, o.ReadsValues settings) (hbinds : context.binds.isSome = true)
include hlinks hreads hbinds

theorem resolveEmpty_typedBy
    (h : c.resolveEmpty settings overloads name span context = (.ok e, after))
    (hsettles : after.table.Settles b) :
    e.IsTypedBy b ∧
      c.resolveEmpty settings overloads name span (context.withTable b) =
        (.ok e, after.withTable b) := by
  rw [resolveEmpty_apply] at h ⊢
  split at h
  · rename_i o hfind
    have ho := List.mem_of_find?_eq_some hfind
    obtain ⟨rfl, built, hbuild, -, rfl⟩ := Overload.create_ok h
    constructor
    · refine Evaluator.IsTypedBy.finish (.other ?_) settings after.table
      exact (hlinks o ho span .empty after built hbuild).resolve_right List.not_mem_nil
    · have hwindow : (after.withTable b).inWindow = after.inWindow := rfl
      rw [hwindow, hfind]
      exact Overload.create_typedBy (hreads o ho) hbinds hsettles.sameValues h
  · cases h

/-- Ranked among the same overloads, a call is repeated where the same one wins. -/
theorem resolveRanked_typedBy {isCast : Bool} (hagree : ∀ e ∈ args.evaluators, e.AgreesWith b)
    (hsteady : ∀ e ∈ args.evaluators, e.Steady)
    (h : c.resolveRanked settings overloads name span isCast args context = (.ok e, after))
    (hsettles : after.table.Settles b) :
    e.IsTypedBy b ∧
      ((scan (context.withTable b).table isCast (context.withTable b).inWindow 0 overloads .start
          (args.typedBy b)).1.winner =
        (scan context.table isCast context.inWindow 0 overloads .start args).1.winner →
      c.resolveRanked settings overloads name span isCast (args.typedBy b) (context.withTable b) =
        (.ok e, after.withTable b)) := by
  have hsteady' : ∀ e ∈ (args.typedBy b).evaluators, e.Steady := by
    intro e he
    obtain ⟨f, hf, rfl⟩ := List.mem_map.mp he
    exact (hsteady f hf).typedBy b
  rw [resolveRanked_apply] at h ⊢
  dsimp only at h ⊢
  rw [snd_scan_of_steady hsteady] at h
  rw [snd_scan_of_steady hsteady']
  split at h
  · cases h
  · rename_i o hwinner
    have ho : o ∈ overloads := by
      obtain ⟨i, -, hi⟩ := Option.bind_eq_some_iff.mp hwinner
      exact List.mem_of_getElem? hi
    obtain ⟨htyped, hagain⟩ :=
      Overload.take_typedBy (hreads o ho) (hlinks o ho) hbinds hagree h hsettles
    refine ⟨htyped, fun hsame => ?_⟩
    rw [hsame, hwinner]
    exact hagain

end Prepared

/-- A call that goes to an overload is no cast that is its own operand. -/
theorem eq_of_choice {isElided : Bool} {i? j? : Option Nat}
    (h : (if isElided then some none else j?.map some) = i?.map some) :
    isElided = false ∧ j? = i? := by
  cases isElided with
  | true =>
    obtain ⟨i, -, hi⟩ := Option.map_eq_some_iff.mp h.symm
    cases hi
  | false => exact ⟨rfl, Option.map_injective (fun _ _ => Option.some.inj) h⟩

/-- A call that resolves does so again with the types that its variables have in the end, where it
goes to the same overload. It comes to the same evaluator then, but for the type of a link. -/
theorem resolve_typedBy (hlinks : c.MakesUpNoLinks settings) (hreads : c.ReadsValues settings)
    (hbinds : context.binds.isSome = true)
    (hagree : ∀ e ∈ args.evaluators, e.AgreesWith b) (hsteady : ∀ e ∈ args.evaluators, e.Steady)
    (h : c.resolve settings name span args context = (.ok e, after))
    (hsettles : after.table.Settles b) :
    e.AgreesWith b ∧
      (c.choice? name (args.typedBy b) (context.withTable b) = c.choice? name args context →
        c.resolve settings name span (args.typedBy b) (context.withTable b) =
          (.ok (e.typedBy b), after.withTable b)) := by
  cases hname : c.overloads? name with
  | none =>
    rw [resolve, hname] at h
    cases h
  | some overloads =>
    have hlinks := hlinks name overloads hname
    have hreads := hreads name overloads hname
    rw [resolve_eq hname] at h
    obtain ⟨⟨isElided, prepared⟩, c₁, helision, hrest⟩ := exists_of_bind_ok h
    have hsettles₁ : c₁.table.Settles b := (settles_of_prepared hrest).trans hsettles
    obtain ⟨hprepared, again, hagain⟩ := elision_typedBy hbinds hagree helision hsettles₁
    have hagree₁ := Args.forall_of_prepared hprepared (fun _ he => he.typedBy) hagree
    have hsteady₁ := Args.forall_of_prepared hprepared (fun _ he => he.typedBy b) hsteady
    have hframe := keeps_frame_elision name args context
    rw [helision] at hframe
    have hbinds₁ : c₁.binds.isSome = true := by rw [Context.isSome_binds_of_frame hframe, hbinds]
    rw [Context.withTable_eq_of_frame hframe.symm b] at hagain ⊢
    rw [choice?_of_elision hname hagain, choice?_of_elision hname helision, isCastCall_typedBy,
      resolve_eq hname, bind_of_ok hagain, isCastCall_typedBy,
      ← Args.typedBy_of_prepared hprepared]
    dsimp only at hrest ⊢
    cases isElided with
    | true =>
      rw [if_pos rfl] at hrest ⊢
      obtain ⟨rfl, rest, hevaluators⟩ := eq_cons_of_elided hrest
      refine ⟨hagree₁ e (by rw [hevaluators]; exact List.mem_cons_self), fun hchoice => ?_⟩
      have helided : again = true := by
        cases again with
        | true => rfl
        | false =>
          obtain ⟨i, -, hi⟩ := Option.map_eq_some_iff.mp hchoice
          cases hi
      rw [if_pos helided]
      simp only [Args.typedBy, hevaluators, List.map_cons]
      rfl
    | false =>
      rw [if_neg Bool.false_ne_true] at hrest ⊢
      rw [Args.isEmpty_typedBy]
      by_cases hempty : prepared.isEmpty = true
      · rw [if_pos hempty] at hrest
        obtain ⟨htyped, hrepeat⟩ := resolveEmpty_typedBy hlinks hreads hbinds₁ hrest hsettles
        refine ⟨.inl htyped, fun hchoice => ?_⟩
        rw [(eq_of_choice hchoice).1, if_neg Bool.false_ne_true, if_pos hempty, htyped.typedBy_eq]
        exact hrepeat
      · rw [if_neg hempty] at hrest
        obtain ⟨htyped, hrepeat⟩ :=
          resolveRanked_typedBy hlinks hreads hbinds₁ hagree₁ hsteady₁ hrest hsettles
        refine ⟨.inl htyped, fun hchoice => ?_⟩
        obtain ⟨hagain, hwinner⟩ := eq_of_choice hchoice
        rw [choiceAmong?, choiceAmong?, Args.isEmpty_typedBy, if_neg hempty, if_neg hempty]
          at hwinner
        rw [hagain, if_neg Bool.false_ne_true, if_neg hempty, htyped.typedBy_eq]
        exact hrepeat hwinner

end Catalog
end SqlResolution
