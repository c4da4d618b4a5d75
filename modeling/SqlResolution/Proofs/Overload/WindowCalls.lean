import SqlResolution.Proofs.Overload.Repetition
import SqlResolution.Proofs.Overload.Window

/-!
# Calls of a function with a window form

A call that the signature of a function and of its window form accepts never goes to the function
inside a window clause. Outside one it goes to the window form only where that is registered first
and the arguments match loosely, and then it does not go to the function.
-/
namespace SqlResolution

open Steps

namespace Parameter

variable {p : Parameter} {charFitsString isCastTarget : Bool} {binds : BindTable}
  {e e' : Evaluator}

/-- The distance to an argument that a parameter is not too short for. -/
def distanceTo (p : Parameter) (charFitsString : Bool) (e : Evaluator) : Nat :=
  let distance := e.type.tag.distance p.tag
  if e.type.tag == .string && p.tag == .char then
    if e.isConstant then distance else distance * 2
  else if e.type.tag == .char && p.tag == .string && !charFitsString then noCoercion
  else distance

theorem fst_coercionDistance (hfits : p.isTooShortFor binds e = false) :
    (p.coercionDistance charFitsString binds e).1 = p.distanceTo charFitsString e := by
  unfold isTooShortFor at hfits
  unfold coercionDistance distanceTo
  dsimp only
  split
  · split
    · simp_all
    · rfl
  · split
    · rfl
    · rfl

/-- How an argument meets a parameter that is not too short for it is told by its type and traits. -/
theorem fst_matchArgument_congr (h : e.Evolves e') (hfits : p.isTooShortFor binds e = false)
    (hfits' : p.isTooShortFor binds e' = false) :
    (p.matchArgument charFitsString isCastTarget binds e').1 =
      (p.matchArgument charFitsString isCastTarget binds e).1 := by
  have htype : (p.coercionDistance charFitsString binds e).2.type = e.type :=
    (p.reevaluated_coercionDistance charFitsString binds e).evolves.type
  have htype' : (p.coercionDistance charFitsString binds e').2.type = e.type :=
    (p.reevaluated_coercionDistance charFitsString binds e').evolves.type.trans h.type
  have hdistance : (p.coercionDistance charFitsString binds e).1 = p.distanceTo charFitsString e :=
    fst_coercionDistance hfits
  have hdistance' : (p.coercionDistance charFitsString binds e').1 =
      p.distanceTo charFitsString e := by
    rw [fst_coercionDistance hfits']
    unfold distanceTo Evaluator.isConstant
    rw [h.type, h.traits]
  unfold matchArgument matchesExactly takesCharAsString Evaluator.isUndefined Evaluator.isConstant
  dsimp only
  simp only [h.type, h.traits, hdistance, hdistance', htype, htype']
  split_ifs <;> rfl

theorem isTooShortFor_of_variable (hvariable : e.isConstant = false) :
    p.isTooShortFor binds e = false := by
  unfold isTooShortFor
  rw [hvariable, Bool.and_false, Bool.false_and]

end Parameter

namespace Overload

variable {o : Overload} {binds : BindTable} {isCast : Bool} {args args' prepared : Args}

/-- Arguments match alike where each meets its parameter alike. -/
theorem fst_matchAll_congr {charFitsString : Bool} {i : Nat} {ps : List Parameter}
    {es es' : List Evaluator} {s : CandidateScore}
    (h : ∀ (k : Nat) (p : Parameter), ps[k]? = some p → Option.Rel (fun e e' => ∀ isCastTarget,
      (p.matchArgument charFitsString isCastTarget binds e').1 =
        (p.matchArgument charFitsString isCastTarget binds e).1) es[k]? es'[k]?) :
    (matchAll charFitsString isCast binds i ps es' s).1 =
      (matchAll charFitsString isCast binds i ps es s).1 := by
  induction ps generalizing i es es' s with
  | nil => rfl
  | cons p ps ih =>
    have hfirst := h 0 p rfl
    cases es with
    | nil =>
      cases es' with
      | nil => rfl
      | cons e' es' => cases hfirst
    | cons e es =>
      cases es' with
      | nil => cases hfirst
      | cons e' es' =>
        have hhead : (p.matchArgument charFitsString (isCast && i == 1) binds e').1 =
            (p.matchArgument charFitsString (isCast && i == 1) binds e).1 := by
          cases hfirst with
          | some hhead => exact hhead _
        have hrest := fun i s => @ih i es es' s fun k q hq => h (k + 1) q hq
        simp only [matchAll, hhead]
        split
        · rfl
        · exact hrest _ _
        · exact hrest _ _

/-- No CHAR is too short for a constant string, however often the constant is evaluated. -/
def Fits (o : Overload) (args : Args) : Prop :=
  ∀ i p e e' binds, o.signature.parameters[i]? = some p → args.get? i = some e →
    e.Reevaluated e' → p.isTooShortFor binds e' = false

/-- An overload accepts arguments: it matches them, whatever variables hold, and however often the
constants among them are evaluated. -/
def Accepts (o : Overload) (isCast : Bool) (args : Args) : Prop :=
  o.signature.acceptsArity args.size = true ∧
    ∀ binds inWindow args', args.Each Evaluator.Reevaluated args' →
      (o.score binds isCast inWindow args').1.level ≠ .noMatch

theorem accepts_iff : o.Accepts isCast args ↔
    o.signature.acceptsArity args.size = true ∧ o.Admits isCast args ∧ o.Fits args := by
  refine and_congr_right fun _ => ⟨fun hmatches => ⟨?_, ?_⟩, ?_⟩
  · have hself : args.Each Evaluator.Reevaluated args := .refl (fun _ => .refl) args
    exact ((o.score_ne_noMatch_iff ..).mp (hmatches .empty false args hself)).1
  · intro i p e e' binds hp he hreevaluated
    have hargs' : args.Each Evaluator.Reevaluated (args.set i e') :=
      .set (fun _ => .refl) he hreevaluated
    exact ((o.score_ne_noMatch_iff ..).mp (hmatches binds false _ hargs')).2 i p e' hp
      (Args.get?_set_self he)
  · rintro ⟨hadmits, hfits⟩ binds inWindow args' hargs'
    refine (o.score_ne_noMatch_iff ..).mpr ⟨?_, ?_⟩
    · intro i p hp
      obtain ⟨e, he, hadmit⟩ := hadmits i p hp
      obtain ⟨e', he', hreevaluated⟩ := hargs'.exists_of_get? he
      refine ⟨e', he', ?_⟩
      rwa [Parameter.admits_congr hreevaluated.evolves.type hreevaluated.evolves.traits]
    · intro i p e' hp he'
      obtain ⟨e, he, hreevaluated⟩ := hargs'.exists_of_some he'
      exact hfits i p e e' binds hp he hreevaluated

theorem Fits.rawScore?_eq (hfits : o.Fits args) (hargs' : args.Each Evaluator.Reevaluated args') :
    o.rawScore? binds isCast args' = o.rawScore? binds isCast args := by
  refine fst_matchAll_congr fun k p hp => ?_
  have hrel := hargs' k
  rw [Args.get?, Args.get?] at hrel
  cases he : args.evaluators[k]? with
  | none =>
    rw [he] at hrel
    generalize args'.evaluators[k]? = e' at hrel
    cases hrel
    exact .none
  | some e =>
    rw [he] at hrel
    generalize args'.evaluators[k]? = e' at hrel
    cases hrel with
    | some hreevaluated =>
      exact .some fun _ => Parameter.fst_matchArgument_congr hreevaluated.evolves
        (hfits k p e e binds hp he .refl) (hfits k p e _ binds hp he hreevaluated)

/-- The variable that a cast types is no constant. -/
theorem Fits.of_elision {name : String} {c ready : Context} {isElided : Bool} (hfits : o.Fits args)
    (helides : elision name args c = (.ok (isElided, prepared), ready)) : o.Fits prepared := by
  obtain ⟨rfl, -⟩ | ⟨_, typed, b, ⟨-, first, -, -, -, assigns⟩, rfl, -⟩ := elision_cases helides
  · exact hfits
  · have hvariable := (Evaluator.assignType_spec assigns).2.1
    intro i p e e' binds hp he hreevaluated
    by_cases hi : i = 0
    · subst hi
      rw [Args.get?_set_self first] at he
      cases he
      rw [hreevaluated.evolves.eq_of_variable hvariable]
      exact Parameter.isTooShortFor_of_variable hvariable
    · rw [Args.get?_set_of_ne hi] at he
      exact hfits i p e e' binds hp he hreevaluated

/-- The arguments of a call match an overload loosely, each by a coercion. -/
def MatchesLoosely (o : Overload) (name : String) (args : Args) (c : Context) : Prop :=
  ∃ prepared ready, elision name args c = (.ok (false, prepared), ready) ∧
    (o.score ready.table (isCastCall name args) false prepared).1.level = .fuzzy

end Overload

namespace Catalog

variable {cat : Catalog} {name : String} {args : Args} {c : Context} {overloads : List Overload}
  {p w : Overload} {i j k : Nat}

/-- A call with arguments that goes to an overload has ranked its prepared arguments. -/
theorem exists_winner_of_choice? (hname : cat.overloads? name = some overloads)
    (hargs : args.isEmpty = false) (h : cat.choice? name args c = some (some k)) :
    ∃ prepared ready, elision name args c = (.ok (false, prepared), ready) ∧
      ready.inWindow = c.inWindow ∧
        (scan ready.table (isCastCall name args) c.inWindow 0 overloads .start prepared).1.winner =
          some k := by
  rcases helides : elision name args c with ⟨error | ⟨isElided, prepared⟩, ready⟩
  · rw [choice?, hname, Option.bind_some, helides] at h
    cases h
  · have hwindow : ready.inWindow = c.inWindow := by
      obtain ⟨-, rfl⟩ | ⟨_, _, _, -, -, rfl⟩ := elision_cases helides
      · rfl
      · rfl
    rw [choice?_of_elision hname helides] at h
    cases isElided with
    | true => cases h
    | false =>
      have hprepared : prepared.isEmpty = false := (isEmpty_elision helides).trans hargs
      rw [if_neg Bool.false_ne_true, choiceAmong?, hprepared, if_neg Bool.false_ne_true, hwindow]
        at h
      obtain ⟨_, hwinner, hk⟩ := Option.map_eq_some_iff.mp h
      cases hk
      exact ⟨prepared, ready, rfl, hwindow, hwinner⟩

/-- A call that the signature of a function and its window form accepts goes to the window form
inside window clauses, if to one of the two. Outside it goes to the function, unless the window form
is registered first and the arguments match loosely: then it goes to the window form, if to one of
the two. -/
theorem choice?_of_windowPair (hname : cat.overloads? name = some overloads)
    (hp : overloads[i]? = some p) (hw : overloads[j]? = some w) (hpair : p.IsWindowPair w)
    (hargs : args.isEmpty = false) (haccepts : p.Accepts (isCastCall name args) args) :
    (c.inWindow = true → cat.choice? name args c ≠ some (some i)) ∧
      (c.inWindow = false → cat.choice? name args c = some (some j) →
        j < i ∧ p.MatchesLoosely name args c) ∧
      (c.inWindow = false → j < i → p.MatchesLoosely name args c →
        cat.choice? name args c ≠ some (some i)) := by
  have hfits := (Overload.accepts_iff.mp haccepts).2.2
  refine ⟨fun hwindow hchoice => ?_, fun hwindow hchoice => ?_,
    fun hwindow hfirst hloose hchoice => ?_⟩
  all_goals
    obtain ⟨prepared, ready, helides, -, hwinner⟩ := exists_winner_of_choice? hname hargs hchoice
    rw [hwindow] at hwinner
  · exact hpair.winner_ne_plain hp hw (fun _ => (hfits.of_elision helides).rawScore?_eq) hwinner
  · obtain ⟨hfirst, hfuzzy⟩ :=
      hpair.loose_of_winner hp hw (fun _ => (hfits.of_elision helides).rawScore?_eq) hwinner
    exact ⟨hfirst, prepared, ready, helides, hfuzzy⟩
  · obtain ⟨prepared', ready', helides', hfuzzy⟩ := hloose
    rw [helides] at helides'
    cases helides'
    exact hpair.winner_ne_plain_of_loose hp hw (fun _ => (hfits.of_elision helides).rawScore?_eq)
      hfirst hfuzzy hwinner

/-- `f(double)`, as a window function or not. -/
def numberFunction (isWindow : Bool) : Overload :=
  ⟨⟨"f", [⟨.double, false⟩], none⟩,
    { (default : Factory) with signature := "f(double)", isWindow }⟩

theorem isWindowPair_numberFunction :
    (numberFunction false).IsWindowPair (numberFunction true) :=
  ⟨rfl, rfl, rfl, rfl, rfl⟩

/-- The arguments of `f(i)`, where `i` is an INT column. -/
def intColumn : Args := ⟨[.column 0 .int "i"], [⟨2, 1⟩]⟩

theorem accepts_intColumn : (numberFunction false).Accepts (isCastCall "f" intColumn) intColumn := by
  refine Overload.accepts_iff.mpr ⟨rfl, fun i p hp => ?_, fun i p e e' binds hp he _ => ?_⟩
  · cases i with
    | zero =>
      cases hp
      exact ⟨_, rfl, rfl⟩
    | succ i => cases hp
  · cases i with
    | zero =>
      cases hp
      exact Parameter.isTooShortFor_of_ne_char (by decide)
    | succ i => cases hp

/-- Where `f` is registered before its window form, `f(i)` goes to the one that suits the context. -/
theorem choice?_of_windowPair_plainFirst :
    let cat : Catalog := ⟨[("f", [numberFunction false, numberFunction true])], []⟩
    let outside : Context := .fresh 0
    let inside : Context := outside.enterWindow
    (cat.choice? "f" intColumn inside).isSome = true ∧
      cat.choice? "f" intColumn inside ≠ some (some 0) ∧
        (cat.choice? "f" intColumn outside).isSome = true ∧
          cat.choice? "f" intColumn outside ≠ some (some 1) := by
  intro cat outside inside
  have hpair := fun c => @choice?_of_windowPair cat "f" intColumn c
    [numberFunction false, numberFunction true] _ _ 0 1 rfl rfl rfl isWindowPair_numberFunction rfl
    accepts_intColumn
  refine ⟨rfl, (hpair inside).1 rfl, rfl, fun houtside => ?_⟩
  exact Nat.not_lt_zero 1 ((hpair outside).2.1 rfl houtside).1

/-- Where the window form of `f` is registered first, `f(i)` goes to it outside window clauses too:
an INT is coerced to a DOUBLE. -/
theorem window_chosen_outside :
    let cat : Catalog := ⟨[("f", [numberFunction true, numberFunction false])], []⟩
    let outside : Context := .fresh 0
    (numberFunction false).IsWindowPair (numberFunction true) ∧
      (numberFunction false).Accepts (isCastCall "f" intColumn) intColumn ∧
        intColumn.isEmpty = false ∧ outside.inWindow = false ∧
          cat.choice? "f" intColumn outside = some (some 0) :=
  ⟨isWindowPair_numberFunction, accepts_intColumn, rfl, rfl, rfl⟩

end Catalog
end SqlResolution
