import SqlResolution.Proofs.Builtin.Registration
import SqlResolution.Proofs.Evaluator.Plain
import SqlResolution.Proofs.Walk.Parametricity

/-!
# Relations that the builtins keep

Two calls of a builtin that is not random build related evaluators from related arguments, for every
relation that the evaluators of the library keep. A tree that calls no random function finds no other
builtins.
-/
namespace SqlResolution

/-- Whether a node calls the function of a name. -/
def Node.calls (n : Node) (name : String) : Bool := n.isCall && Text.lowerAscii n.token == name

/-- Whether a node calls for random numbers. -/
def Node.isRandom (n : Node) : Bool := n.calls "rnd_int" || n.calls "rnd_double"

namespace Builtin

/-- Whether the values are random. -/
def isRandom : Builtin → Bool
  | randomInt | randomDouble => true
  | _ => false

/-- A call finds an overload of a builtin under the builtin's own name. -/
theorem exists_of_call {n : Node} {overloads : List Overload} {o : Overload}
    (hcall : n.isCall = true) (hname : catalog.overloads? n.token = some overloads)
    (ho : o ∈ overloads) :
    ∃ b ∈ all, o = b.overload ∧ n.calls b.descriptor.name = true := by
  obtain ⟨b, hb, hoverload, hlower⟩ := exists_of_mem_overloads hname ho
  refine ⟨b, hb, hoverload, ?_⟩
  rw [Node.calls, hcall, hlower, beq_self_eq_true, Bool.true_and]

/-- A node that calls for no random numbers finds no random builtin. -/
theorem isRandom_of_call {n : Node} {b : Builtin} (hn : n.isRandom = false)
    (hb : n.calls b.descriptor.name = true) : b.isRandom = false := by
  rw [Node.isRandom, Bool.or_eq_false_iff] at hn
  cases b with
  | randomInt => exact absurd hb (by simp [descriptor, hn.1])
  | randomDouble => exact absurd hb (by simp [descriptor, hn.2])
  | _ => rfl

open Evaluator Steps

/-- What a cast of an argument is built as, where the argument is not of type NULL. -/
def castOrNull (scales : TextScales) (target : ColumnType) (e : Evaluator) : Evaluator :=
  if e.constantValue?.any Value.isNull then .nullOf target else .cast scales target e

/-- A relation of evaluators that the builtins keep. Related evaluators have the same type, and
related constants the same value. -/
structure Congruence (R : Evaluator → Evaluator → Prop) : Prop where
  type : ∀ {e e'}, R e e' → e.type = e'.type
  isConstant : ∀ {e e'}, R e e' → e.isConstant = e'.isConstant
  value_of_isConstant : ∀ {e e'} (b b' : BindTable), R e e' → e.isConstant = true →
    e.value b .empty = e'.value b' .empty
  refl : ∀ {e : Evaluator}, e.Plain (fun _ => False) → R e e
  fold : ∀ {e e'} (b b' : BindTable), R e e' → e.isConstant = true → R (e.fold b) (e'.fold b')
  adapt : ∀ {e e' adapter} {source target : ColumnType}, target.isUndefined = false → R e e' →
    R (.adapt adapter source target e) (.adapt adapter source target e')
  scalar : ∀ {es es' i} (k : Kernel), Aligned (fun _ => R) i es es' →
    R (.scalar k es) (.scalar k es')
  concat : ∀ {es es' i} (scales : TextScales), Aligned (fun _ => R) i es es' →
    R (.concat scales es) (.concat scales es')
  member : ∀ {e e'} (texts : List String) (holdsNull : Bool), R e e' →
    R (.member texts holdsNull e) (.member texts holdsNull e')
  castOrNull : ∀ {e e'} (scales : TextScales) {target : ColumnType}, target.isUndefined = false →
    R e e' → R (castOrNull scales target e) (castOrNull scales target e')
  total : ∀ {e e'} (which : Total), R e e' → R (.total which .zero e) (.total which .zero e')
  runningAverage : ∀ {e e'}, R e e' → R (.runningAverage 0 0 e) (.runningAverage 0 0 e')

/-- The texts of a list depend on the values of its elements alone. -/
theorem listTexts_congr {b b' : BindTable} {es es' : List Evaluator}
    (hvalues : es.map (fun e => e.value b .empty) = es'.map fun e => e.value b' .empty)
    (position : Span) : listTexts b position es = listTexts b' position es' := by
  induction es generalizing es' with
  | nil =>
    cases es' with
    | nil => rfl
    | cons e' es' => cases hvalues
  | cons e es ih =>
    cases es' with
    | nil => cases hvalues
    | cons e' es' =>
      obtain ⟨hhead, htail⟩ := List.cons.inj hvalues
      dsimp only at hhead
      rw [listTexts, listTexts, hhead, ih htail]

section

variable {R : Evaluator → Evaluator → Prop} (hR : Congruence R) {e e' : Evaluator}
  {args args' : Args} (position : Span) (b b' : BindTable)
include hR

theorem outcome_readConstantGeohash (target : ColumnType) (v : Value) :
    Outcome R (readConstantGeohash position target v) (readConstantGeohash position target v) := by
  have hconstant : ∀ v, R (.constant target v) (.constant target v) := by
    intro v
    refine hR.refl ?_
    rw [Plain]
    trivial
  unfold readConstantGeohash
  split
  · exact .ok (hconstant .null)
  · split
    · exact .ok (hconstant _)
    · exact .error _

theorem outcome_implicitCast {target : ColumnType} (hdefined : target.isUndefined = false)
    (h : R e e') :
    Outcome (fun out out' => out.isCast = out'.isCast ∧ R out.evaluator out'.evaluator)
      (implicitCast b position e target) (implicitCast b' position e' target) := by
  unfold implicitCast
  rw [← hR.type h, ← hR.isConstant h]
  cases adapterFor? e.type target with
  | none => exact .ok ⟨rfl, h⟩
  | some adapter =>
    refine .ite (fun hreads => ?_) fun _ => .ok ⟨rfl, hR.adapt hdefined h⟩
    have hvalue : (e.evalConstant b).1 = (e'.evalConstant b').1 :=
      hR.value_of_isConstant b b' h (Bool.and_eq_true_iff.mp hreads).2
    rw [← hvalue]
    exact (outcome_readConstantGeohash hR position target _).map fun read read' hread => ⟨rfl, hread⟩

theorem outcome_convertOperand {type : ColumnType} (hdefined : type.isUndefined = false)
    (h : R e e') :
    Outcome R (convertOperand b type e position) (convertOperand b' type e' position) := by
  unfold convertOperand foldedImplicitCast
  rw [← hR.type h]
  refine .ite (fun _ => .ok h) fun _ => ?_
  refine ((outcome_implicitCast hR position b b' hdefined h).map fun out out' hout => ?_).map
    fun out out' hout => hout
  obtain ⟨hisCast, hevaluator⟩ := hout
  rw [← hisCast, ← hR.isConstant hevaluator]
  split
  · rename_i hfolds
    exact hR.fold b b' hevaluator (Bool.and_eq_true_iff.mp hfolds).2
  · exact hevaluator

theorem outcome_convertOperands {type : ColumnType} (hdefined : type.isUndefined = false)
    {es es' : List Evaluator} {i : Nat} (h : Aligned (fun _ => R) i es es')
    (positions : List Span) :
    Outcome (Aligned (fun _ => R) i) (convertOperands b type (es.zip positions))
      (convertOperands b' type (es'.zip positions)) := by
  induction h generalizing positions with
  | nil => exact .ok (.nil _)
  | cons head _ ih =>
    cases positions with
    | nil => exact .ok (.nil _)
    | cons position positions =>
      rw [List.zip_cons_cons, List.zip_cons_cons, convertOperands, convertOperands]
      exact (outcome_convertOperand hR position b b' hdefined head).bind fun e e' he =>
        (ih positions).bind fun es es' hes => .ok (.cons he hes)

theorem outcome_buildKernel (k : Kernel) (h : args.Aligned (fun _ => R) args') :
    Outcome R (buildKernel b k args) (buildKernel b' k args') := by
  unfold buildKernel
  cases hconverts : k.convertsTo? with
  | none => exact .ok (hR.scalar k h.evaluators)
  | some type =>
    have hdefined : type.isUndefined = false := by
      cases k with
      | equal c | less c => cases c <;> cases hconverts <;> rfl
      | _ => cases hconverts
    dsimp only
    rw [← h.positions]
    exact (outcome_convertOperands hR b b' hdefined h.evaluators args.positions).map
      fun es es' hes => hR.scalar k hes

theorem outcome_buildCast (scales : TextScales) {target : ColumnType}
    (hdefined : target.isUndefined = false) (h : args.Aligned (fun _ => R) args') :
    Outcome R (buildCast scales target position args)
      (buildCast scales target position args') := by
  have hevaluators := h.evaluators
  unfold buildCast
  generalize args.evaluators = es, args'.evaluators = es' at hevaluators
  rcases hevaluators with _ | ⟨head, _ | ⟨second, _ | ⟨third, tail⟩⟩⟩
  · exact .error _
  · exact .error _
  · rename_i arg arg' _ _
    dsimp only
    rw [← hR.type head]
    cases arg.type.isNull with
    | true =>
      refine .ok (hR.refl ?_)
      rw [nullOf, Plain]
      trivial
    | false =>
      have hor : ∀ p : Bool, (false || p) = p := Bool.false_or
      simp only [hor, ← apply_ite]
      exact .ok (hR.castOrNull scales hdefined head)
  · exact .error _

theorem outcome_buildMember (h : args.Aligned (fun _ => R) args')
    (hlist : args.evaluators.tail.map (fun e => e.value b .empty) =
      args'.evaluators.tail.map fun e => e.value b' .empty) :
    Outcome R (buildMember b position args) (buildMember b' position args') := by
  have hevaluators := h.evaluators
  unfold buildMember
  generalize args.evaluators = es, args'.evaluators = es' at hevaluators hlist
  cases hevaluators with
  | nil => exact .error _
  | cons head tail =>
    rw [List.tail_cons, List.tail_cons] at hlist
    dsimp only
    rw [← listTexts_congr hlist]
    refine Outcome.map (R := (· = ·)) (.refl fun _ _ => rfl) ?_
    rintro texts _ rfl
    exact hR.member texts.1 texts.2 head

omit hR in
theorem outcome_buildUnary {make : Evaluator → Evaluator} (h : args.Aligned (fun _ => R) args')
    (hmake : ∀ {e e'}, R e e' → R (make e) (make e')) :
    Outcome R (buildUnary make position args) (buildUnary make position args') := by
  have hevaluators := h.evaluators
  unfold buildUnary
  generalize args.evaluators = es, args'.evaluators = es' at hevaluators
  rcases hevaluators with _ | ⟨head, _ | ⟨second, tail⟩⟩
  · exact .error _
  · exact .ok (hmake head)
  · exact .error _

/-- A builtin that is not random builds related evaluators from related arguments. It reads the
values of variables in the list of `in` alone. -/
theorem outcome_build {builtin : Builtin} (hall : builtin ∈ all)
    (hrandom : builtin.isRandom = false) {settings settings' : Settings}
    (hscales : settings.scales = settings'.scales) {c c' : Context} (hnow : c.now = c'.now)
    (h : args.Aligned (fun _ => R) args')
    (hlist : builtin = .member → args.evaluators.tail.map (fun e => e.value c.table .empty) =
      args'.evaluators.tail.map fun e => e.value c'.table .empty) :
    Outcome R (builtin.build position args settings c)
      (builtin.build position args' settings' c') := by
  cases builtin with
  | kernel k => exact outcome_buildKernel hR c.table c'.table k h
  | varcharLength => exact outcome_buildKernel hR c.table c'.table .length h
  | cast source target =>
    simp only [build, ← hscales]
    exact outcome_buildCast hR position settings.scales (isUndefined_target hall) h
  | concat =>
    simp only [build, ← hscales]
    exact .ok (hR.concat settings.scales h.evaluators)
  | member => exact outcome_buildMember hR position c.table c'.table h (hlist rfl)
  | total which => exact outcome_buildUnary position h (hR.total which)
  | runningAverage => exact outcome_buildUnary position h hR.runningAverage
  | randomInt => cases hrandom
  | randomDouble => cases hrandom
  | now =>
    simp only [build, ← hnow]
    exact .ok (hR.refl (by simp [Plain]))
  | count | rowNumber | rank => exact .ok (hR.refl (by simp [Plain]))

end

/-- A builtin builds alike where it builds evaluators that are used alike. -/
theorem buildsAlike {S : Context → Context → Prop} {R : Nat → Evaluator → Evaluator → Prop}
    {Q : Evaluator → Evaluator → Prop} {settings settings' : Settings} {name : String} {span : Span}
    (b : Builtin) (hallow : ∀ c c', S c c' → c.allowNonDeterministic = c'.allowNonDeterministic)
    (hbuild : ∀ args args', args.Aligned R args' → ∀ c c', S c c' →
      Outcome (fun e e' => e.isNonDeterministic = e'.isNonDeterministic ∧
          Q (e.finish settings c.table) (e'.finish settings' c'.table))
        (b.build span args settings c) (b.build span args' settings' c')) :
    b.overload.BuildsAlike S R Q settings settings' name span where
  tailType? _ _ _ _ := rfl
  create args args' haligned := b.overload.relates_create name hallow fun c c' hS =>
    (hbuild args args' haligned c c' hS).map fun _ _ related => .some related

end Builtin
end SqlResolution
