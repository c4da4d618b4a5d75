import SqlResolution.Overload.Ranking
import SqlResolution.Proofs.Evaluator.Folding

/-!
# What scoring makes of the arguments

Matching evaluates the constant strings that meet a CHAR and nothing else, so the arguments of a
call keep their types and traits while its overloads are scored, and its variables stay as they are.
-/
namespace SqlResolution

namespace Evaluator

/-- Evaluation leaves it as it is, if it is constant. Only constants are evaluated by scoring. -/
def Steady (e : Evaluator) : Prop := e.isConstant = true → ∀ binds, (e.evalConstant binds).2 = e

theorem Steady.of_variable {e : Evaluator} (h : e.isConstant = false) : e.Steady := by
  intro hconstant
  rw [h] at hconstant
  cases hconstant

/-- What an evaluator may become while the overloads of a call are scored. -/
structure Evolves (e e' : Evaluator) : Prop where
  type : e'.type = e.type
  traits : e'.traits = e.traits
  eq_of_steady : e.Steady → e' = e

theorem Evolves.refl (e : Evaluator) : e.Evolves e := ⟨rfl, rfl, fun _ => rfl⟩

theorem Evolves.trans {e f g : Evaluator} (hf : e.Evolves f) (hg : f.Evolves g) : e.Evolves g where
  type := hg.type.trans hf.type
  traits := hg.traits.trans hf.traits
  eq_of_steady := by
    intro he
    have hfe := hf.eq_of_steady he
    subst hfe
    exact hg.eq_of_steady he

theorem Evolves.eq_of_variable {e e' : Evaluator} (h : e.Evolves e')
    (hvariable : e.isConstant = false) : e' = e :=
  h.eq_of_steady (.of_variable hvariable)

theorem evolves_evalConstant {e : Evaluator} (hconstant : e.isConstant = true) (binds : BindTable) :
    e.Evolves (e.evalConstant binds).2 where
  type := type_eval binds .empty e
  traits := traits_eval binds .empty e
  eq_of_steady hsteady := hsteady hconstant binds

/-- What a constant becomes when it is evaluated, any number of times. Another evaluator stays as it
is. -/
inductive Reevaluated (e : Evaluator) : Evaluator → Prop
  | refl : Reevaluated e e
  | eval {e' : Evaluator} (h : Reevaluated e e') (hconstant : e'.isConstant = true)
      (binds : BindTable) : Reevaluated e (e'.evalConstant binds).2

namespace Reevaluated

theorem trans {e f g : Evaluator} (h : e.Reevaluated f) (h' : f.Reevaluated g) :
    e.Reevaluated g := by
  induction h' with
  | refl => exact h
  | eval _ hconstant binds ih => exact .eval ih hconstant binds

theorem evolves {e e' : Evaluator} (h : e.Reevaluated e') : e.Evolves e' := by
  induction h with
  | refl => exact .refl e
  | eval _ hconstant binds ih => exact ih.trans (evolves_evalConstant hconstant binds)

end Reevaluated
end Evaluator

theorem Parameter.reevaluated_coercionDistance (p : Parameter) (charFitsString : Bool)
    (binds : BindTable) (e : Evaluator) :
    e.Reevaluated (p.coercionDistance charFitsString binds e).2 := by
  unfold coercionDistance
  dsimp only
  split
  · split
    · exact .eval .refl ‹_› binds
    · exact .refl
  · split
    · exact .refl
    · exact .refl

theorem Parameter.reevaluated_matchArgument (p : Parameter) (charFitsString isCastTarget : Bool)
    (binds : BindTable) (e : Evaluator) :
    e.Reevaluated (p.matchArgument charFitsString isCastTarget binds e).2 := by
  have hcoercion := p.reevaluated_coercionDistance charFitsString binds e
  unfold matchArgument
  dsimp only
  repeat' split
  all_goals first | exact .refl | exact hcoercion

theorem Parameter.evolves_matchArgument (p : Parameter) (charFitsString isCastTarget : Bool)
    (binds : BindTable) (e : Evaluator) :
    e.Evolves (p.matchArgument charFitsString isCastTarget binds e).2 :=
  (p.reevaluated_matchArgument charFitsString isCastTarget binds e).evolves

namespace Args

/-- Each argument is related to the one in its place. -/
def Each (R : Evaluator → Evaluator → Prop) (args args' : Args) : Prop :=
  ∀ i, Option.Rel R (args.get? i) (args'.get? i)

/-- What arguments may become while the overloads of a call are scored. -/
def Evolve (args args' : Args) : Prop :=
  ∀ i, Option.Rel Evaluator.Evolves (args.get? i) (args'.get? i)

namespace Each

variable {R : Evaluator → Evaluator → Prop} {args args' args'' : Args}

theorem rel_refl (hR : ∀ e, R e e) (e : Option Evaluator) : Option.Rel R e e := by
  cases e with
  | none => exact .none
  | some e => exact .some (hR e)

theorem refl (hR : ∀ e, R e e) (args : Args) : args.Each R args := fun _ => rel_refl hR _

theorem trans (hR : ∀ e f g, R e f → R f g → R e g) (h : args.Each R args')
    (h' : args'.Each R args'') : args.Each R args'' := by
  intro i
  have hi := h i
  have hi' := h' i
  generalize args.get? i = e, args'.get? i = e', args''.get? i = e'' at hi hi'
  cases hi with
  | none => exact hi'
  | some he =>
    cases hi' with
    | some he' => exact .some (hR _ _ _ he he')

theorem mono {R' : Evaluator → Evaluator → Prop} (hR : ∀ e e', R e e' → R' e e')
    (h : args.Each R args') : args.Each R' args' := by
  intro i
  have hi := h i
  generalize args.get? i = e, args'.get? i = e' at hi
  cases hi with
  | none => exact .none
  | some he => exact .some (hR _ _ he)

theorem exists_of_some (h : args.Each R args') {i : Nat} {e' : Evaluator}
    (hi : args'.get? i = some e') : ∃ e, args.get? i = some e ∧ R e e' := by
  have hrel := h i
  rw [hi] at hrel
  generalize args.get? i = before at hrel
  cases hrel with
  | some he => exact ⟨_, rfl, he⟩

theorem exists_of_get? (h : args.Each R args') {i : Nat} {e : Evaluator}
    (hi : args.get? i = some e) : ∃ e', args'.get? i = some e' ∧ R e e' := by
  have hrel := h i
  rw [hi] at hrel
  generalize args'.get? i = after at hrel
  cases hrel with
  | some he => exact ⟨_, rfl, he⟩

/-- An argument is replaced by one that it is related to. -/
theorem set (hR : ∀ e, R e e) {i : Nat} {e e' : Evaluator} (he : args.get? i = some e)
    (h : R e e') : args.Each R (args.set i e') := by
  intro j
  by_cases hj : j = i
  · subst hj
    rw [he, get?_set_self he]
    exact .some h
  · rw [get?_set_of_ne hj]
    exact rel_refl hR _

theorem size_eq (h : args.Each R args') : args'.size = args.size := by
  have hnone : ∀ i : Nat, args.evaluators[i]? = none ↔ args'.evaluators[i]? = none := by
    intro i
    have hi := h i
    rw [get?, get?] at hi
    generalize args.evaluators[i]? = e, args'.evaluators[i]? = e' at hi
    cases hi <;> simp
  simp only [List.getElem?_eq_none_iff] at hnone
  exact Nat.le_antisymm ((hnone _).mp (Nat.le_refl _)) ((hnone _).mpr (Nat.le_refl _))

end Each

namespace Evolve

variable {args args' args'' : Args}

theorem refl (args : Args) : args.Evolve args := Each.refl .refl args

theorem trans (h : args.Evolve args') (h' : args'.Evolve args'') : args.Evolve args'' :=
  Each.trans (fun _ _ _ => .trans) h h'

theorem exists_of_some (h : args.Evolve args') {i : Nat} {e' : Evaluator}
    (hi : args'.get? i = some e') : ∃ e, args.get? i = some e ∧ e.Evolves e' :=
  Each.exists_of_some h hi

theorem exists_of_get? (h : args.Evolve args') {i : Nat} {e : Evaluator}
    (hi : args.get? i = some e) : ∃ e', args'.get? i = some e' ∧ e.Evolves e' :=
  Each.exists_of_get? h hi

/-- What is told by type and traits stays as it is. -/
theorem map_eq {α : Type} {f : Evaluator → α} (h : args.Evolve args')
    (hf : ∀ e e' : Evaluator, e.Evolves e' → f e' = f e) :
    args'.evaluators.map f = args.evaluators.map f := by
  refine List.ext_getElem? fun i => ?_
  have hrel := h i
  change Option.Rel _ args.evaluators[i]? args'.evaluators[i]? at hrel
  rw [List.getElem?_map, List.getElem?_map]
  generalize args.evaluators[i]? = before, args'.evaluators[i]? = after at hrel
  cases hrel with
  | none => rfl
  | some he => exact congrArg some (hf _ _ he)

/-- Steady arguments stay as they are. -/
theorem evaluators_eq (h : args.Evolve args') (hsteady : ∀ e ∈ args.evaluators, e.Steady) :
    args'.evaluators = args.evaluators := by
  refine List.ext_getElem? fun i => ?_
  have hrel := h i
  change Option.Rel _ args.evaluators[i]? args'.evaluators[i]? at hrel
  generalize hbefore : args.evaluators[i]? = before, args'.evaluators[i]? = after at hrel
  cases hrel with
  | none => rfl
  | some he => rw [he.eq_of_steady (hsteady _ (List.mem_of_getElem? hbefore))]

end Evolve
end Args

namespace Overload

variable (o : Overload) (binds : BindTable) (isCast inWindow : Bool)

theorem reevaluated_matchAll (charFitsString : Bool) (i : Nat) (ps : List Parameter)
    (es : List Evaluator) (s : CandidateScore) (k : Nat) :
    Option.Rel Evaluator.Reevaluated es[k]?
      (matchAll charFitsString isCast binds i ps es s).2[k]? := by
  induction ps generalizing i es s k with
  | nil => exact Args.Each.rel_refl (fun _ => .refl) _
  | cons p ps ih =>
    cases es with
    | nil => exact .none
    | cons e es =>
      have hhead := p.reevaluated_matchArgument charFitsString (isCast && i == 1) binds e
      simp only [matchAll]
      split
      all_goals
        cases k with
        | zero => exact .some hhead
        | succ k => first | exact Args.Each.rel_refl (fun _ => .refl) _ | exact ih _ _ _ k

theorem reevaluated_score (args : Args) :
    args.Each Evaluator.Reevaluated (o.score binds isCast inWindow args).2 :=
  reevaluated_matchAll binds isCast _ 0 _ _ _

end Overload

/-- Scoring evaluates constants and does nothing else to the arguments. -/
theorem reevaluated_scan (binds : BindTable) (isCast inWindow : Bool) (i : Nat) (os : List Overload)
    (t : CandidateTracker) (args : Args) :
    args.Each Evaluator.Reevaluated (scan binds isCast inWindow i os t args).2 := by
  induction os generalizing i t args with
  | nil => exact .refl (fun _ => .refl) args
  | cons o os ih =>
    rw [scan]
    split
    · have hscored := o.reevaluated_score binds isCast inWindow args
      dsimp only
      split
      · exact hscored
      · exact hscored.trans (fun _ _ _ => .trans) (ih _ _ _)
    · exact ih _ _ _

theorem evolve_scan (binds : BindTable) (isCast inWindow : Bool) (i : Nat) (os : List Overload)
    (t : CandidateTracker) (args : Args) :
    args.Evolve (scan binds isCast inWindow i os t args).2 :=
  (reevaluated_scan binds isCast inWindow i os t args).mono fun _ _ h => h.evolves

theorem positions_scan (binds : BindTable) (isCast inWindow : Bool) (i : Nat) (os : List Overload)
    (t : CandidateTracker) (args : Args) :
    (scan binds isCast inWindow i os t args).2.positions = args.positions := by
  induction os generalizing i t args with
  | nil => rfl
  | cons o os ih =>
    rw [scan]
    split
    · dsimp only
      split
      · rfl
      · exact ih _ _ _
    · exact ih _ _ _

/-- Scoring leaves the arguments as they are where the constants among them are steady. -/
theorem snd_scan_of_steady {binds : BindTable} {isCast inWindow : Bool} {i : Nat}
    {os : List Overload} {t : CandidateTracker} {args : Args}
    (h : ∀ e ∈ args.evaluators, e.Steady) :
    (scan binds isCast inWindow i os t args).2 = args := by
  have hpositions : (scan binds isCast inWindow i os t args).2.positions = args.positions :=
    positions_scan binds isCast inWindow i os t args
  have hevaluators := (evolve_scan binds isCast inWindow i os t args).evaluators_eq h
  generalize (scan binds isCast inWindow i os t args).2 = scanned at hpositions hevaluators
  obtain ⟨evaluators, positions⟩ := scanned
  cases hpositions
  cases hevaluators
  rfl

end SqlResolution
