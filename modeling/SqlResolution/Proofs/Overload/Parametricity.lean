import SqlResolution.Proofs.Overload.Aligned
import SqlResolution.Proofs.Overload.Typing

/-!
# Calls that do alike

Aligned arguments are prepared alike, so a call resolves alike in related contexts where the
overloads of its name build alike from aligned arguments.
-/
namespace SqlResolution

open Steps

variable {S : Context → Context → Prop} {R : Nat → Evaluator → Evaluator → Prop}
  (hR : ∀ i, Uniform S (R i)) {args args' : Args}

section Typing

include hR

/-- Giving a type to a variable leaves the other arguments as they are. -/
theorem relates_assignArgument (h : args.Aligned R args') {i : Nat}
    (hundefined : ∀ e, args.get? i = some e → e.isUndefined = true) (type : ColumnType) :
    Relates S (fun out out' => out.Aligned R out' ∧ ∀ j, j ≠ i → out.get? j = args.get? j)
      (assignArgument args i type) (assignArgument args' i type) := by
  intro c c' hS
  rw [assignArgument_apply, assignArgument_apply]
  have hrel := h.get? i
  generalize hget : args.get? i = e, args'.get? i = e' at hrel
  cases hrel with
  | none => exact ⟨.ok ⟨h, fun _ _ => rfl⟩, hS⟩
  | @some e e' related =>
    have houtcome := (hR i).assignType hS related (hundefined e hget) type
    dsimp only
    generalize e.assignType c.table type = x, e'.assignType c'.table type = y at houtcome
    cases houtcome with
    | error error => exact ⟨.error error, hS⟩
    | ok assigned =>
      refine ⟨.ok ⟨h.set assigned.1, ?_⟩, assigned.2⟩
      intro j hj
      exact List.getElem?_set_ne hj.symm

theorem relates_elideCast (h : args.Aligned R args') :
    Relates S (AnswersAlike (Args.Aligned R)) (elideCast args) (elideCast args') := by
  have hoperand := h.get? 0
  have htarget := h.get? 1
  unfold elideCast
  generalize hget : args.get? 0 = operand, args'.get? 0 = operand' at hoperand
  generalize args.get? 1 = target, args'.get? 1 = target' at htarget
  cases hoperand with
  | none => exact .pure ⟨rfl, h⟩
  | @some operand operand' related =>
    cases htarget with
    | none => exact .pure ⟨rfl, h⟩
    | @some target target' relatedTarget =>
      simp only [← (hR 0).type related, ← (hR 1).type relatedTarget, Evaluator.isUndefined]
      refine .ite (fun _ => .pure ⟨rfl, h⟩) fun _ => ?_
      refine .ite (fun hundefined => ?_) fun _ => .pure ⟨rfl, h⟩
      have hoperand : ∀ e, args.get? 0 = some e → e.isUndefined = true := by
        intro e he
        rw [hget] at he
        cases he
        exact hundefined
      cases castVariableType? target.type with
      | none => exact .pure ⟨rfl, h⟩
      | some type =>
        refine .bind (relates_assignArgument hR h hoperand type) fun out out' hout => ?_
        exact .pure ⟨rfl, hout.1⟩

theorem relates_elision (name : String) (h : args.Aligned R args') :
    Relates S (AnswersAlike (Args.Aligned R)) (elision name args) (elision name args') := by
  unfold elision
  rw [← isCastCall_aligned hR name h]
  split
  · exact relates_elideCast hR h
  · exact .pure ⟨rfl, h⟩

namespace Overload

/-- Variables at different places are given their types one after another. -/
theorem relates_assignTypes {o : Overload} {places : List Nat}
    (htail : ∀ i args args', args.Aligned R args' →
      o.factory.tailType? i args = o.factory.tailType? i args')
    (name : String) (hplaces : places.Pairwise (· < ·)) (h : args.Aligned R args')
    (hundefined : ∀ i ∈ places, ∀ e, args.get? i = some e → e.isUndefined = true) :
    Relates S (Args.Aligned R) (o.assignTypes name places args)
      (o.assignTypes name places args') := by
  induction places generalizing args args' with
  | nil => exact .pure h
  | cons i is ih =>
    obtain ⟨hfirst, hrest⟩ := List.pairwise_cons.mp hplaces
    have htype : o.variableType name i args = o.variableType name i args' := by
      unfold variableType
      rw [htail i args args' h, h.position_eq]
    unfold assignTypes
    rw [← htype]
    refine .bind (.liftM (.refl fun _ _ => rfl)) ?_
    rintro type _ rfl
    refine .bind (relates_assignArgument hR h (hundefined i List.mem_cons_self) type) ?_
    rintro out out' ⟨hout, hsame⟩
    refine ih hrest hout ?_
    intro j hj e he
    rw [hsame j (Nat.ne_of_gt (hfirst j hj))] at he
    exact hundefined j (List.mem_cons_of_mem i hj) e he

end Overload
end Typing

section Rewriting

variable {c c' : Context} {P : Evaluator → Evaluator → Prop} {e e' : Evaluator}

/-- Constant text becomes the same instant, in any relation. -/
theorem outcome_readConstantInstant (hP : Uniform S P) {target : TypeTag}
    (htemporal : target.isTemporal = true) (position : Span) (v : Value) :
    Outcome P (readConstantInstant target position v) (readConstantInstant target position v) := by
  have hdefined : (ColumnType.of target).isUndefined = false := by
    cases target <;> first | rfl | cases htemporal
  unfold readConstantInstant
  cases v.asStr? with
  | none => exact .ok (hP.constant hdefined rfl)
  | some text =>
    dsimp only
    split
    · rename_i v hv
      refine .ok (hP.constant hdefined ?_)
      cases htarget : target == TypeTag.timestamp with
      | true =>
        rw [htarget, if_pos rfl, Option.map_eq_some_iff] at hv
        obtain ⟨micros, -, rfl⟩ := hv
        rw [eq_of_beq htarget]
        rfl
      | false =>
        rw [htarget, if_neg (by simp), Option.map_eq_some_iff] at hv
        obtain ⟨millis, -, rfl⟩ := hv
        have hdate : target = .date := by
          cases target <;> first | rfl | exact absurd htarget (by decide) | cases htemporal
        rw [hdate]
        rfl
    · exact .error _

theorem outcome_rewriteArgument (hP : Uniform S P) (hS : S c c') (h : P e e') (target : TypeTag)
    (position : Span) :
    Outcome P (rewriteArgument c.table target e position)
      (rewriteArgument c'.table target e' position) := by
  have hadapt : ∀ {adapter : Adapter}, adapter = .uuidToStr ∨ adapter = .intervalToStr →
      Outcome (ε := ResolveError) P (.ok (.adapt adapter e.type .string e))
        (.ok (.adapt adapter e.type .string e')) := by
    intro adapter hadapter
    have hadapted := hP.adapt h hadapter
    rw [← hP.type h] at hadapted
    exact .ok hadapted
  unfold rewriteArgument
  simp only [← hP.type h, ← hP.isConstant h]
  refine .ite (fun hdouble => ?_) fun _ => .ite (fun htext => .ite (fun htemporal => ?_) fun _ => ?_)
    fun _ => .ite (fun _ => hadapt (.inl rfl)) fun _ => .ite (fun _ => hadapt (.inr rfl)) fun _ => .ok h
  · obtain ⟨hvalue, hnext⟩ := hP.evalConstant hS h (Bool.and_eq_true_iff.mp hdouble).2
    rw [← hvalue]
    refine .ite (fun _ => .ok (hP.constant rfl rfl)) fun _ => ?_
    exact .ite (fun _ => .ok (hP.constant rfl rfl)) fun _ => .ok hnext
  · obtain ⟨hvalue, -⟩ := hP.evalConstant hS h (Bool.and_eq_true_iff.mp htext).2
    rw [← hvalue]
    exact outcome_readConstantInstant hP htemporal position _
  · exact .ok h

end Rewriting

section Rewriting

variable {c c' : Context}
include hR

theorem outcome_rewriteAll (hS : S c c') (h : args.Aligned R args') (i : Nat)
    (ps : List Parameter) :
    Outcome (Args.Aligned R) (Overload.rewriteAll c.table i ps args)
      (Overload.rewriteAll c'.table i ps args') := by
  induction ps generalizing i args args' with
  | nil => exact .ok h
  | cons p ps ih =>
    have hrel := h.get? i
    unfold Overload.rewriteAll Args.mapAt
    rw [← h.position_eq]
    generalize args.get? i = e, args'.get? i = e' at hrel
    cases hrel with
    | none => exact ih h _
    | @some e e' related =>
      have houtcome := outcome_rewriteArgument (hR i) hS related p.tag (args.position i)
      dsimp only
      generalize rewriteArgument c.table p.tag e (args.position i) = x,
        rewriteArgument c'.table p.tag e' (args.position i) = y at houtcome
      cases houtcome with
      | error error => exact .error error
      | ok rewritten => exact ih (h.set rewritten) _

namespace Overload

variable {o : Overload} {places : List Nat}
  (htail : ∀ i args args', args.Aligned R args' →
    o.factory.tailType? i args = o.factory.tailType? i args')
include htail

/-- Aligned arguments are prepared alike. -/
theorem relates_adjust (name : String) (hplaces : places.Pairwise (· < ·))
    (h : args.Aligned R args')
    (hundefined : ∀ i ∈ places, ∀ e, args.get? i = some e → e.isUndefined = true) :
    Relates S (Args.Aligned R) (o.adjust name places args) (o.adjust name places args') := by
  unfold adjust
  rw [← firstVariableInTail?_aligned hR _ h]
  cases firstVariableInTail? o.signature args with
  | some i =>
    dsimp only
    rw [← h.position_eq]
    exact .throw _
  | none =>
    refine .bind (relates_assignTypes hR htail name hplaces h hundefined) fun out out' hout => ?_
    exact .bind_get fun c c' hS => .liftM (outcome_rewriteAll hR hS hout 0 _)

end Overload
end Rewriting

/-- Overloads build alike from aligned arguments, each run with its own settings. -/
structure Overload.BuildsAlike (S : Context → Context → Prop)
    (R : Nat → Evaluator → Evaluator → Prop) (P : Evaluator → Evaluator → Prop)
    (settings settings' : Settings) (name : String) (span : Span) (o : Overload) : Prop where
  tailType? : ∀ i args args', args.Aligned R args' →
    o.factory.tailType? i args = o.factory.tailType? i args'
  create : ∀ args args', args.Aligned R args' →
    Relates S P (o.create settings name span args) (o.create settings' name span args')

/-- What is built alike is used alike: it is refused for being non-deterministic in both runs or in
neither. -/
theorem Overload.relates_create {P : Evaluator → Evaluator → Prop} {settings settings' : Settings}
    {o : Overload} {span : Span} (name : String)
    (hallow : ∀ c c', S c c' → c.allowNonDeterministic = c'.allowNonDeterministic)
    (hbuild : ∀ c c', S c c' →
      Outcome (Option.Rel fun e e' => e.isNonDeterministic = e'.isNonDeterministic ∧
          P (e.finish settings c.table) (e'.finish settings' c'.table))
        (o.factory.build span args settings c) (o.factory.build span args' settings' c')) :
    Relates S P (o.create settings name span args) (o.create settings' name span args') := by
  refine .bind_get fun c c' hS => .bind (.liftM (hbuild c c' hS)) fun built built' hrel => ?_
  cases hrel with
  | none => exact .throw _
  | some related =>
    dsimp only
    rw [← related.1, ← hallow c c' hS]
    exact .ite (fun _ => .throw _) fun _ => .pure related.2

namespace Catalog

variable {P : Evaluator → Evaluator → Prop} {settings settings' : Settings} {name : String}
  {span : Span} {overloads : List Overload}

theorem relates_resolveEmpty (c : Catalog) (hwindow : ∀ c c', S c c' → c.inWindow = c'.inWindow)
    (hoverloads : ∀ o ∈ overloads, o.BuildsAlike S R P settings settings' name span) :
    Relates S P (c.resolveEmpty settings overloads name span)
      (c.resolveEmpty settings' overloads name span) := by
  refine .bind_get fun context context' hS => ?_
  rw [← hwindow context context' hS]
  dsimp only
  split
  · rename_i o hfind
    exact (hoverloads o (List.mem_of_find?_eq_some hfind)).create .empty .empty ⟨rfl, .nil 0⟩
  · exact .throw _

include hR

theorem relates_resolveRanked (c : Catalog)
    (hwindow : ∀ c c', S c c' → c.inWindow = c'.inWindow)
    (hoverloads : ∀ o ∈ overloads, o.BuildsAlike S R P settings settings' name span)
    (isCast : Bool) (h : args.Aligned R args') :
    Relates S P (c.resolveRanked settings overloads name span isCast args)
      (c.resolveRanked settings' overloads name span isCast args') := by
  intro context context' hS
  obtain ⟨htracker, hscanned⟩ :=
    scan_aligned hR hS isCast context.inWindow 0 overloads .start h
  have hevolve := evolve_scan context.table isCast context.inWindow 0 overloads .start args
  rw [resolveRanked_apply, resolveRanked_apply, ← hwindow context context' hS,
    ← undefinedPlaces_aligned hR h]
  dsimp only
  rw [← htracker]
  generalize (scan context.table isCast context.inWindow 0 overloads .start args).1.winner = winner
  generalize (scan context.table isCast context.inWindow 0 overloads .start args).2 = scanned at *
  generalize (scan context'.table isCast context.inWindow 0 overloads .start args').2 = scanned'
    at *
  cases hwinner : winner.bind (overloads[·]?) with
  | none =>
    dsimp only
    rw [← noMatchingOverload_aligned hR c overloads name span hscanned]
    exact ⟨.error _, hS⟩
  | some o =>
    have ho : o ∈ overloads := by
      obtain ⟨i, -, hi⟩ := Option.bind_eq_some_iff.mp hwinner
      exact List.mem_of_getElem? hi
    have hbuilds := hoverloads o ho
    have hadjust := o.relates_adjust hR hbuilds.tailType? name (pairwise_undefinedPlaces args)
      hscanned fun i hi e he => isUndefined_of_evolve hevolve hi he
    exact Relates.bind hadjust hbuilds.create context context' hS

/-- A call resolves alike from aligned arguments where the overloads of its name build alike. -/
theorem relates_resolve (c : Catalog) (hwindow : ∀ c c', S c c' → c.inWindow = c'.inWindow)
    (hfirst : ∀ e e', R 0 e e' → P e e')
    (hoverloads : ∀ overloads, c.overloads? name = some overloads → ∀ o ∈ overloads,
      o.BuildsAlike S R P settings settings' name span)
    (h : args.Aligned R args') :
    Relates S P (c.resolve settings name span args) (c.resolve settings' name span args') := by
  cases hname : c.overloads? name with
  | none =>
    unfold resolve
    rw [hname, unknownFunction_aligned hR name span h]
    exact .throw _
  | some overloads =>
    rw [resolve_eq hname, resolve_eq hname, ← isCastCall_aligned hR name h]
    refine .bind (relates_elision hR name h) ?_
    rintro ⟨isElided, prepared⟩ ⟨_, prepared'⟩ ⟨rfl, hprepared⟩
    dsimp only at hprepared ⊢
    rw [← hprepared.isEmpty_eq]
    refine .ite (fun _ => ?_) fun _ => .ite (fun _ => ?_) fun _ => ?_
    · have hevaluators := hprepared.evaluators
      generalize prepared.evaluators = es, prepared'.evaluators = es' at hevaluators
      cases hevaluators with
      | nil => exact .throw _
      | cons head tail => exact .pure (hfirst _ _ head)
    · exact c.relates_resolveEmpty hwindow (hoverloads overloads hname)
    · exact c.relates_resolveRanked hR hwindow (hoverloads overloads hname) _ hprepared

end Catalog
end SqlResolution
